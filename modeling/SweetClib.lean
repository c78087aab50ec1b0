import SweetClib.Lib.ByteStream
import SweetClib.Lib.Channel
import SweetClib.Lib.Cyclic
import SweetClib.Lib.Descriptors
import SweetClib.Lib.EdgeQueue
import SweetClib.Lib.Epoll
import SweetClib.Lib.Heap
import SweetClib.Lib.HeapTree
import SweetClib.Lib.Insertion
import SweetClib.Lib.Json
import SweetClib.Lib.JsonValue
import SweetClib.Lib.Memory
import SweetClib.Lib.Monitor
import SweetClib.Lib.Munch
import SweetClib.Lib.NestedMap
import SweetClib.Lib.OrderedMap
import SweetClib.Lib.Print
import SweetClib.Lib.Replica
import SweetClib.Lib.Run
import SweetClib.Lib.SearchTree
import SweetClib.Lib.Split
import SweetClib.Lib.Text
import SweetClib.Lib.UrlEncode
import SweetClib.Linked.List
import SweetClib.Linked.Rep
import SweetClib.Linked.Sequence
import SweetClib.Hash.Chtbl
import SweetClib.Hash.Index
import SweetClib.Hash.Owner
import SweetClib.Hash.Refine
import SweetClib.Hash.Rep
import SweetClib.Avl.Balance
import SweetClib.Avl.BisTree
import SweetClib.Avl.Entries
import SweetClib.Avl.Map
import SweetClib.Avl.Owner
import SweetClib.Avl.Run
import SweetClib.Avl.Shape
import SweetClib.Majordomo.Bookkeeping
import SweetClib.Majordomo.Broker
import SweetClib.Majordomo.Change
import SweetClib.Majordomo.Client
import SweetClib.Majordomo.Delivery
import SweetClib.Majordomo.Functions
import SweetClib.Majordomo.Handlers
import SweetClib.Majordomo.Ledger
import SweetClib.Majordomo.Mmi
import SweetClib.Majordomo.Purge
import SweetClib.Majordomo.Reserved
import SweetClib.Majordomo.RoundTrip
import SweetClib.Majordomo.System
import SweetClib.Majordomo.Update
import SweetClib.Majordomo.Worker
import SweetClib.Majordomo.Zmsg
import SweetClib.Clone.Converge
import SweetClib.Clone.Framing
import SweetClib.Clone.Keys
import SweetClib.Clone.Kvsimple
import SweetClib.Clone.Programs
import SweetClib.Pool.Counter
import SweetClib.Pool.Dispatch
import SweetClib.Pool.Shutdown
import SweetClib.Pool.Threadpool
import SweetClib.Async.Server
import SweetClib.Bns.CollectGem
import SweetClib.Bns.EncodeJson
import SweetClib.Bns.Gem
import SweetClib.Bns.Hashpjw
import SweetClib.Bns.Load
import SweetClib.Bns.Loader
import SweetClib.Bns.Regex
import SweetClib.Bns.Row
import SweetClib.Bns.Strntok
import SweetClib.Bns.Weapon
import SweetClib.Bns.WeaponJson
import SweetClib.Chat.Server
import SweetClib.Epoll.Oneshot
import SweetClib.Libevent.LineEcho
import SweetClib.Pirate.Lazy
import SweetClib.Pirate.LazyLedger
import SweetClib.Pirate.Paranoid
import SweetClib.Pirate.Ppqueue
import SweetClib.Pirate.Ppworker
import SweetClib.Pirate.Spqueue
import SweetClib.Process.Accept
import SweetClib.Process.Processpool
import SweetClib.Process.RoundRobin
import SweetClib.Re2c.Scan
import SweetClib.Sort.Issort
import SweetClib.Tree.Bitree
import SweetClib.Tree.Forest
import SweetClib.Tree.Rep
import SweetClib.Tree.Traverse
import SweetClib.Epoll.Client
import SweetClib.Epoll.Levels
import SweetClib.Epoll.PingPong
import SweetClib.Lib.SignalLoop
import SweetClib.Process.Family
import SweetClib.Process.Shutdown
import SweetClib.Bns.GemGroups
import SweetClib.Libevent.Server
import SweetClib.Clone.First
import SweetClib.Lex.Verbs
import SweetClib.Majordomo.Tripping
