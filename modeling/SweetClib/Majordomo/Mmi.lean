import Mathlib.Data.Set.Card
import SweetClib.Majordomo.Delivery

/-!
# The service `mmi.service`

A service counts its workers in a `size_t`: READY adds one, deleting a worker takes one away,
wherever it happens. `Counted` says that the counter is the number of workers that have the
service, up to overflow, and every change of the broker keeps it. Workers are at different
addresses, which are 64 bit numbers other than the null pointer, so that there is no overflow, and
the answer to a request for `mmi.service` is the truth (`mmi_service_truth`).
-/

namespace SweetClib.Majordomo
open SweetClib.Lib

/-- The registered workers of a service. -/
def Broker.workersOf (b : Broker) (name : Str) : Set Addr :=
  {p | (∃ id, b.workers id = some p) ∧ b.svcOf p = some name}

/-- The addresses of workers with a service. -/
def Broker.staff (b : Broker) (name : Str) : Set Addr :=
  {p | b.svcOf p = some name}

/-- The counter of a service. -/
def Broker.countOf (b : Broker) (name : Str) : Option UInt64 :=
  (b.services name).map Service.workers

/-- The counters are the numbers of workers. -/
structure Counted (b : Broker) : Prop where
  finite : ∀ name, (b.staff name).Finite
  count : ∀ name n, b.countOf name = some n → n = UInt64.ofNat (b.staff name).ncard

/-- The addresses that allocations return are pointers: 64 bit numbers other than the null
pointer. -/
def Pointers : Action → Prop
  | .client _ offer => 0 < offer ∧ offer < 2 ^ 64
  | .deliver _ offer => 0 < offer ∧ offer < 2 ^ 64
  | _ => True

/-- What a client that asks for a service learns: the counters are the numbers of registered
workers, and the request is answered, with its other frames, by `"200"` if there is such a worker
and by `"404"` otherwise. -/
structure MmiTruth (clock : Nat → Nat) (s : Sys) : Prop where
  counter : ∀ name sv, s.broker.services name = some sv →
    (s.broker.workersOf name).Finite ∧ sv.workers.toNat = (s.broker.workersOf name).ncard
  answer : ∀ client empty body last offer, ∃ s' code,
    SysTrans clock s
      (.client (client :: empty :: MDPC_CLIENT :: MMI_SERVICE :: (body ++ [last])) offer) s' ∧
    s'.broker.out = s.broker.out ++
      [client :: [] :: MDPC_CLIENT :: MMI_SERVICE :: (body ++ [code])] ∧
    ((s.broker.workersOf (zframeStrdup last)).Nonempty → code = [50, 48, 48]) ∧
    (¬ (s.broker.workersOf (zframeStrdup last)).Nonempty → code = [52, 48, 52])

variable {clock : Nat → Nat} {b b' : Broker} {p : Addr} {w : Worker} {name : Str} {s : Service}

lemma Roster.workersOf (ro : Roster b) (name : Str) : b.workersOf name = b.staff name := by
  ext p
  refine ⟨fun mem => mem.2, fun svc => ⟨?_, svc⟩⟩
  obtain ⟨w, hw, _⟩ := Option.bind_eq_some_iff.mp svc
  exact ⟨w.idString, (ro.reg _ _).mpr (by simp [Broker.idOf, hw])⟩

/-- The counters depend on these views of the state only. -/
lemma Counted.congr (cd : Counted b) (svcs : b'.svcOf = b.svcOf) (counts : b'.countOf = b.countOf) :
    Counted b' := by
  have staff : b'.staff = b.staff := by
    funext name
    simp only [Broker.staff, svcs]
  constructor
  · rw [staff]
    exact cd.finite
  · rw [staff, counts]
    exact cd.count

/-- Storing a service changes its counter only. -/
lemma countOf_setService (b : Broker) (name : Str) (s : Service) :
    (b.setService name s).countOf = Function.update b.countOf name (some s.workers) := by
  funext n
  by_cases h : n = name
  · subst h
    simp [Broker.countOf, Broker.setService]
  · simp [Broker.countOf, Broker.setService, h]

/-- Storing a service with the counter it has changes no counter. -/
lemma countOf_setService_same (hs : b.services name = some s) (s' : Service)
    (same : s'.workers = s.workers) : (b.setService name s').countOf = b.countOf := by
  rw [countOf_setService, same]
  refine Function.update_eq_self_iff.mpr ?_
  simp [Broker.countOf, hs]

/-- A service that is not there has no workers. -/
lemma Roster.staff_none (ro : Roster b) (hs : b.services name = none) : b.staff name = ∅ := by
  refine Set.eq_empty_iff_forall_notMem.mpr fun p svc => ?_
  have := ro.svc p name svc
  simp [Broker.queue, hs] at this

lemma Counted.service (cd : Counted b) (ro : Roster b) (hs : b.services name = none) :
    Counted (b.setService name { requests := [], waiting := [], workers := 0 }) := by
  refine ⟨cd.finite, fun n k e => ?_⟩
  have staff : ∀ n, (b.setService name { requests := [], waiting := [], workers := 0 }).staff n =
      b.staff n :=
    fun _ => rfl
  rw [countOf_setService] at e
  rw [staff]
  by_cases h : n = name
  · subst h
    rw [Function.update_self] at e
    cases e
    rw [ro.staff_none hs, Set.ncard_empty]
    rfl
  · rw [Function.update_of_ne h] at e
    exact cd.count n k e

/-- A worker gets a service, which counts it. -/
lemma Counted.assign (cd : Counted b) (hw : b.heap p = some w) (hn : w.service = none)
    (hs : b.services name = some s) : Counted (b.assign p w name s) := by
  have heap : (b.assign p w name s).heap = b.heap.set p { w with service := some name } := rfl
  have counts :
      (b.assign p w name s).countOf = Function.update b.countOf name (some (s.workers + 1)) :=
    countOf_setService b name { s with workers := s.workers + 1 }
  have out : ∀ n, p ∉ b.staff n := fun n => by simp [Broker.staff, Broker.svcOf, hw, hn]
  have self : (b.assign p w name s).staff name = insert p (b.staff name) := by
    ext q
    simp only [Broker.staff, svcOf_set heap, Set.mem_insert_iff, Set.mem_ofPred_eq]
    by_cases h : q = p
    · simp [h]
    · simp [h]
  have others : ∀ n, n ≠ name → (b.assign p w name s).staff n = b.staff n := by
    intro n ne
    ext q
    simp only [Broker.staff, svcOf_set heap, Set.mem_ofPred_eq]
    by_cases h : q = p
    · subst h
      simpa [ne.symm, Broker.staff] using out n
    · simp [h]
  refine ⟨fun n => ?_, fun n k e => ?_⟩
  · by_cases h : n = name
    · subst h
      rw [self]
      exact (cd.finite n).insert p
    · rw [others n h]
      exact cd.finite n
  · rw [counts] at e
    by_cases h : n = name
    · subst h
      rw [Function.update_self] at e
      cases e
      rw [self, Set.ncard_insert_of_notMem (out n) (cd.finite n), UInt64.ofNat_add,
        ← cd.count n s.workers (by simp [Broker.countOf, hs])]
      rfl
    · rw [Function.update_of_ne h] at e
      rw [others n h]
      exact cd.count n k e

/-- A worker is deleted, and its service takes it off the count. -/
lemma Counted.delete (cd : Counted b) (hw : b.heap p = some w) : Counted (b.delete p w) := by
  have staff : ∀ n, (b.delete p w).staff n = b.staff n \ {p} := by
    intro n
    ext q
    simp only [Broker.staff, svcOf_delete, Set.mem_sdiff, Set.mem_ofPred_eq, Set.mem_singleton_iff]
    by_cases h : q = p
    · simp [h]
    · simp [h]
  refine ⟨fun n => ?_, fun n k e => ?_⟩
  · rw [staff]
    exact (cd.finite n).sdiff
  · rw [staff]
    obtain ⟨s', hs', rfl⟩ := Option.map_eq_some_iff.mp e
    simp only [Broker.delete, Broker.unlist] at hs'
    split at hs'
    next own =>
      obtain ⟨s, hs, rfl⟩ := Option.map_eq_some_iff.mp hs'
      have mem : p ∈ b.staff n := by simp [Broker.staff, Broker.svcOf, hw, own]
      have one := Set.ncard_sdiff_singleton_add_one mem (cd.finite n)
      show s.workers - 1 = _
      rw [cd.count n s.workers (by simp [Broker.countOf, hs]), ← one, UInt64.ofNat_add]
      exact UInt64.add_sub_cancel ..
    next other =>
      have out : p ∉ b.staff n := by simpa [Broker.staff, Broker.svcOf, hw] using other
      rw [Set.sdiff_singleton_eq_self out]
      exact cd.count n s'.workers (by simp [Broker.countOf, hs'])

lemma Counted.change (cd : Counted b) (ro : Roster b) {k : Kind} (ch : Change clock b k b') :
    Counted b' := by
  cases ch with
  | read => exact cd.congr rfl rfl
  | beat => exact cd.congr rfl rfl
  | send _ => exact cd.congr rfl rfl
  | service hs => exact cd.service ro hs
  | @register p identity fresh _ =>
    refine cd.congr ?_ rfl
    rw [svcOf_set (b := b) rfl]
    refine Function.update_eq_self_iff.mpr ?_
    simp [Broker.svcOf, fresh]
  | assign hw hn hs => exact cd.assign hw hn hs
  | delete hw => exact cd.delete hw
  | @accept name s msg hs =>
    exact cd.congr rfl (countOf_setService_same hs
      { s with requests := s.requests ++ [{ seq := b.accepted.length, msg := msg }] } rfl)
  | @enlist p _ name s hw _ hs _ =>
    exact cd.congr (svcOf_set_same hw rfl rfl)
      (countOf_setService_same hs { s with waiting := s.waiting ++ [p] } rfl)
  | refresh hw => exact cd.congr (svcOf_set_same hw rfl rfl) rfl
  | @give name s _ _ ws _ rs hs _ _ _ =>
    exact cd.congr rfl (countOf_setService_same hs { s with waiting := ws, requests := rs } rfl)

lemma Counted.new (clock : Nat → Nat) : Counted (sBrokerNew clock) := by
  have none : ∀ name, (sBrokerNew clock).staff name = ∅ := by
    intro name
    ext p
    simp [Broker.staff, Broker.svcOf, sBrokerNew, Heap.empty]
  refine ⟨fun name => ?_, fun name n e => ?_⟩
  · rw [none]
    exact Set.finite_empty
  · cases e

/-- The workers are at addresses that were returned by allocations. -/
lemma heap_pointers {s : Sys} {tr}
    (run : Run (fun s a s' => Pointers a ∧ SysTrans clock s a s') (sysNew clock) tr s) :
    ∀ p, (s.broker.heap p).isSome → 0 < p ∧ p < 2 ^ 64 := by
  refine run.invariant_under SysInv (fun s => ∀ p, (s.broker.heap p).isSome → 0 < p ∧ p < 2 ^ 64)
    (.new clock) (fun _ _ _ inv st => inv.step st.2) nofun ?_
  rintro s a s' inv ptrs ⟨ptr, e⟩ p live
  obtain ⟨ev, he, mv⟩ | ⟨_, _, bal⟩ := inv.cases e
  · obtain ⟨w, hw⟩ := Option.isSome_iff_exists.mp live
    have role : s'.broker.roleOf p = some (w.identity, w.service) := by simp [Broker.roleOf, hw]
    rcases (brokerStep_effect inv.book.toRoster mv.step).role role with before | new
    · obtain ⟨w₀, hw₀, _⟩ := Option.map_eq_some_iff.mp before
      exact ptrs p (by simp [hw₀])
    · -- the address of a worker that is brought in is the one the step offers
      obtain ⟨msg, rfl⟩ := new.recv
      cases a with
      | client _ _ =>
        cases he
        exact ptr
      | deliver _ _ =>
        obtain ⟨_, _, same⟩ := Option.map_eq_some_iff.mp he
        cases same
        exact ptr
      | _ => cases he
  · obtain ⟨n, _, eb⟩ := bal.broker
    rw [eb] at live
    exact ptrs p live

/-- A request for `mmi.service` is answered by the code for its last frame. -/
lemma clientMsg_mmi (clock : Nat → Nat) (b : Broker) (client : Frame) (body : Zmsg) (last : Frame) :
    ∃ b₁ ks, Run (Change clock) b ks b₁ ∧ b₁.staff = b.staff ∧ b₁.out = b.out ∧
      sBrokerClientMsg clock b client (MMI_SERVICE :: (body ++ [last])) =
        some (zmsgSend b₁ (client :: [] :: MDPC_CLIENT :: MMI_SERVICE ::
          (body ++ [mmiCode b₁ MMI_SERVICE last]))) := by
  obtain ⟨services, ks, e, run, _, _⟩ := sServiceRequire_changes clock b MMI_SERVICE
  have mmi : isMmi MMI_SERVICE = true := by decide
  refine ⟨_, ks, run, rfl, rfl, ?_⟩
  obtain ⟨frame, msg, split⟩ : ∃ frame msg, body ++ [last] = frame :: msg :=
    List.exists_cons_of_ne_nil (by simp)
  have wrap : zmsgWrap (frame :: msg) client = (client :: [] :: body) ++ [last] := by
    rw [← split]
    rfl
  have lastFrame : (zmsgWrap (frame :: msg) client).getLast? = some last := by
    rw [wrap, List.getLast?_concat]
  have others : (zmsgWrap (frame :: msg) client).dropLast = client :: [] :: body := by
    rw [wrap, List.dropLast_concat]
  rw [split]
  simp only [sBrokerClientMsg, e, mmi, if_true, lastFrame, others, Option.bind_eq_bind,
    Option.bind_some]
  rfl

lemma staff_lt (ptrs : ∀ p, (b.heap p).isSome → 0 < p ∧ p < 2 ^ 64) (name : Str) :
    (b.staff name).ncard < 2 ^ 64 := by
  have sub : b.staff name ⊆ (Finset.Ioo 0 (2 ^ 64) : Finset Nat) := by
    intro p svc
    obtain ⟨w, hw, _⟩ := Option.bind_eq_some_iff.mp svc
    exact Finset.mem_coe.mpr (Finset.mem_Ioo.mpr (ptrs p (by simp [hw])))
  have le := Set.ncard_le_ncard sub (Finset.finite_toSet _)
  rw [Set.ncard_coe_finset, Nat.card_Ioo] at le
  omega

/-- If there is no overflow, the code tells whether there are workers. -/
lemma Counted.mmiCode (cd : Counted b) (ro : Roster b) (last : Frame)
    (fits : (b.staff (zframeStrdup last)).ncard < 2 ^ 64) :
    ((b.staff (zframeStrdup last)).Nonempty → mmiCode b MMI_SERVICE last = [50, 48, 48]) ∧
    (¬ (b.staff (zframeStrdup last)).Nonempty → mmiCode b MMI_SERVICE last = [52, 48, 52]) := by
  rw [Majordomo.mmiCode, if_pos rfl]
  cases hs : b.services (zframeStrdup last) with
  | none => simp [ro.staff_none hs]
  | some s =>
    have count := cd.count (zframeStrdup last) s.workers (by simp [Broker.countOf, hs])
    have zero : s.workers = 0 ↔ b.staff (zframeStrdup last) = ∅ := by
      rw [← Set.ncard_eq_zero (cd.finite _), count, ← UInt64.toNat_inj,
        UInt64.toNat_ofNat_of_lt' fits]
      rfl
    simp only [Set.nonempty_iff_ne_empty, ne_eq, ← zero]
    constructor
    · intro ne
      rw [if_pos ne]
    · intro eq
      rw [if_neg eq]

/-- In every state of every run the counters of the services are the numbers of their registered
workers, and `mmi.service` answers accordingly. -/
theorem mmi_service_truth (clock : Nat → Nat) : ∀ tr s,
    Run (fun s a s' => Pointers a ∧ SysTrans clock s a s') (sysNew clock) tr s →
      MmiTruth clock s := by
  intro tr s run
  have fits : ∀ name, (s.broker.staff name).ncard < 2 ^ 64 := staff_lt (heap_pointers run)
  have inv : SysInv s := run.invariant SysInv (.new clock) fun _ _ _ inv st => inv.step st.2
  have cd : Counted s.broker := by
    refine run.invariant_under SysInv (fun s => Counted s.broker) (.new clock)
      (fun _ _ _ inv st => inv.step st.2) (.new clock) fun s a s' inv cd st => ?_
    exact inv.keeps Counted (fun _ _ _ bk cd ch => cd.change bk.toRoster ch)
      (fun _ _ cd => cd.congr rfl rfl) st.2 cd
  have ro := inv.book.toRoster
  refine ⟨fun name sv hs => ?_, fun client empty body last offer => ?_⟩
  · rw [ro.workersOf]
    refine ⟨cd.finite name, ?_⟩
    rw [cd.count name sv.workers (by simp [Broker.countOf, hs]),
      UInt64.toNat_ofNat_of_lt' (fits name)]
  · rw [ro.workersOf]
    obtain ⟨b₁, ks, changes, staff, out, e⟩ := clientMsg_mmi clock s.broker client body last
    have bk₁ := inv.book.changes changes
    have cd₁ : Counted b₁ :=
      changes.invariant_under Book Counted inv.book (fun _ _ _ bk ch => bk.change ch) cd
      fun _ _ _ bk cd ch => cd.change bk.toRoster ch
    have codes := cd₁.mmiCode bk₁.toRoster last (by rw [staff]; exact fits _)
    rw [staff] at codes
    refine ⟨_, _, (sysStep_client _ _ _ _ _ _ _).trans (by rw [e]; rfl), ?_, codes⟩
    simp only [zmsgSend, out]

/-- A worker becomes ready, and its service counts it. -/
theorem mmi_service_truth_one : ∃ s,
    Run (fun s a s' => Pointers a ∧ SysTrans (fun n => n) s a s') (sysNew fun n => n)
      [.deliver [65] 1, .start [65] [115]] s ∧
    (s.broker.services [115]).map Service.workers = some 1 ∧ MmiTruth (fun n => n) s := by
  have pointer : Pointers (.deliver [65] 1) := ⟨by norm_num, by norm_num⟩
  have run : Run (fun s a s' => Pointers a ∧ SysTrans (fun n => n) s a s') (sysNew fun n => n)
      [.deliver [65] 1, .start [65] [115]] _ := .cons (.cons .nil ⟨trivial, rfl⟩) ⟨pointer, rfl⟩
  exact ⟨_, run, rfl, mmi_service_truth _ _ _ run⟩

end SweetClib.Majordomo
