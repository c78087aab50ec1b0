import SweetClib.Majordomo.Delivery

/-!
# Expired workers

A purge stops at the first worker that has not expired, so it takes all expired workers off the
list only if no expired worker is behind one that has not (`purgeComplete_iff`). If the list is in
the order of expiry, that is so at any time. Enlisting keeps the order, since the clock does not
run backwards; but a HEARTBEAT gives its worker a later expiry and leaves it where it is. Then a
purge can miss a worker behind it, and a request can go to a worker that has expired
(`heartbeat_out_of_order`).

As long as no worker behind the sender of a HEARTBEAT would expire before it, purges are complete
and requests go to live workers. For the latter it is enough that a worker that was overtaken so
has not expired when the clock is read, for instance because it sends its own HEARTBEAT in time
(`purge_complete_in_order`).
-/

namespace SweetClib.Majordomo
open SweetClib.Lib

/-- The expiry of the worker at an address. -/
def Broker.expiryOf (b : Broker) (p : Addr) : Nat :=
  match b.heap p with
  | some w => w.expiry
  | none => 0

/-- The waiting list is in an order of expiry, and no expiry is later than one given now. -/
structure InOrder (R : Nat → Nat → Prop) (clock : Nat → Nat) (b : Broker) : Prop where
  sorted : b.waiting.Pairwise fun p q => R (b.expiryOf p) (b.expiryOf q)
  bound : ∀ p ∈ b.waiting, b.expiryOf p ≤ clock b.reads + HEARTBEAT_EXPIRY

/-- If the second one has expired by a time, so has the first one. -/
def ExpiresFirst (now expiry expiry' : Nat) : Prop := expiry' ≤ now → expiry ≤ now

/-- At a reading of the clock no worker on the list that has expired is behind one that has not. -/
def Unpassed (clock : Nat → Nat) (b : Broker) (n : Nat) : Prop :=
  b.waiting.Pairwise fun p q => ExpiresFirst (clock n) (b.expiryOf p) (b.expiryOf q)

/-- Every request was sent to a worker that had not expired at the last reading of the clock. -/
def SentLive (b : Broker) : Prop :=
  ∀ e ∈ b.sent, e.now < e.worker.expiry

/-- A purge of the broker takes every worker off the list that has expired at any of its
readings. -/
def PurgeComplete (clock : Nat → Nat) (b : Broker) : Prop :=
  ∃ b', sBrokerPurge clock b = some b' ∧
    ∀ p ∈ b'.waiting, ∀ n, b.reads ≤ n → n < b'.reads → clock n < b'.expiryOf p

/-- A worker can be refreshed where it is: those behind it expire no earlier than it will. -/
def RefreshInOrder (clock : Nat → Nat) (b : Broker) (p : Addr) : Prop :=
  ∀ l₁ l₂, b.waiting = l₁ ++ p :: l₂ → ∀ q ∈ l₂, clock b.reads + HEARTBEAT_EXPIRY ≤ b.expiryOf q

/-- A HEARTBEAT comes from a worker that can be refreshed where it is. -/
def HeartbeatInOrder (clock : Nat → Nat) (s : Sys) (a : Action) : Prop :=
  ∀ msg offer sender p, eventOf s a = some (.recv msg offer) →
    workerCommand msg = some (sender, MDPW_HEARTBEAT) →
    s.broker.workers (zframeStrhex sender) = some p → RefreshInOrder clock s.broker p

variable {clock : Nat → Nat} {b b' : Broker} {p : Addr} {w : Worker} {name : Str} {sv : Service}
variable {R : Nat → Nat → Prop}

/-- The expiry of a worker that is there. -/
lemma expiryOf_some (hw : b.heap p = some w) : b.expiryOf p = w.expiry := by
  simp [Broker.expiryOf, hw]

/-- A list in the order of expiry is so by any weaker order. -/
lemma InOrder.weaken (ord : InOrder (· ≤ ·) clock b) (weaker : ∀ e e', e ≤ e' → R e e') :
    InOrder R clock b :=
  ⟨ord.sorted.imp fun le => weaker _ _ le, ord.bound⟩

lemma expiresFirst_of_le (now : Nat) : ∀ e e', e ≤ e' → ExpiresFirst now e e' :=
  fun _ _ le expired => le.trans expired

section Order

/-- The order is kept when the list gets shorter, the expiries stay and time passes. -/
lemma InOrder.sublist (mono : Monotone clock) (ord : InOrder R clock b)
    (sub : b'.waiting.Sublist b.waiting) (same : ∀ p ∈ b'.waiting, b'.expiryOf p = b.expiryOf p)
    (reads : b.reads ≤ b'.reads) : InOrder R clock b' := by
  constructor
  · refine (ord.sorted.sublist sub).imp_of_mem fun {p q} hp hq le => ?_
    rw [same p hp, same q hq]
    exact le
  · intro p mem
    rw [same p mem]
    exact (ord.bound p (sub.subset mem)).trans (Nat.add_le_add_right (mono reads) _)

variable (weaker : ∀ e e', e ≤ e' → R e e')
include weaker

/-- A worker that is enlisted expires last. -/
lemma InOrder.enlist (mono : Monotone clock) (ord : InOrder R clock b) (out : p ∉ b.waiting) :
    InOrder R clock (b.enlist clock p w name sv) := by
  have others : ∀ q ∈ b.waiting, (b.enlist clock p w name sv).expiryOf q = b.expiryOf q := by
    intro q mem
    have ne : q ≠ p := fun h => out (h ▸ mem)
    simp [Broker.expiryOf, Broker.enlist, ne]
  have new : (b.enlist clock p w name sv).expiryOf p = clock b.reads + HEARTBEAT_EXPIRY := by
    simp [Broker.expiryOf, Broker.enlist]
  have waiting : (b.enlist clock p w name sv).waiting = b.waiting ++ [p] := rfl
  have later : clock b.reads ≤ clock (b.enlist clock p w name sv).reads := mono (Nat.le_succ _)
  constructor
  · rw [waiting, List.pairwise_append]
    refine ⟨ord.sorted.imp_of_mem fun {q r} hq hr le => ?_, List.pairwise_singleton _ _, ?_⟩
    · rw [others q hq, others r hr]
      exact le
    · intro q mem r mem'
      rw [List.mem_singleton.mp mem', others q mem, new]
      exact weaker _ _ (ord.bound q mem)
  · intro q mem
    rw [waiting, List.mem_append, List.mem_singleton] at mem
    obtain mem | rfl := mem
    · rw [others q mem]
      exact (ord.bound q mem).trans (Nat.add_le_add_right later _)
    · rw [new]
      exact Nat.add_le_add_right later _

/-- Every change but a new expiry keeps the order. -/
lemma InOrder.change (mono : Monotone clock) (ord : InOrder R clock b) (bk : Book b) {k : Kind}
    (ch : Change clock b k b') (no : ∀ p, k.label ≠ .refresh p) : InOrder R clock b' := by
  cases ch with
  | read => exact ord.sublist mono (List.Sublist.refl _) (fun _ _ => rfl) (Nat.le_succ _)
  | beat => exact ord.sublist mono (List.Sublist.refl _) (fun _ _ => rfl) le_rfl
  | send _ => exact ord.sublist mono (List.Sublist.refl _) (fun _ _ => rfl) le_rfl
  | service _ => exact ord.sublist mono (List.Sublist.refl _) (fun _ _ => rfl) le_rfl
  | @register p identity fresh _ =>
    refine ord.sublist mono (List.Sublist.refl _) (fun q mem => ?_) le_rfl
    have ne : q ≠ p := by
      rintro rfl
      obtain ⟨w, _, _, hw, _⟩ := bk.live mem
      simp [fresh] at hw
    simp [Broker.expiryOf, Broker.register, ne]
  | @assign p w name s hw _ _ =>
    refine ord.sublist mono (List.Sublist.refl _) (fun q _ => ?_) le_rfl
    by_cases h : q = p
    · subst h
      simp [Broker.expiryOf, Broker.assign, hw]
    · simp [Broker.expiryOf, Broker.assign, h]
  | @delete p w _ =>
    refine ord.sublist mono List.erase_sublist (fun q mem => ?_) le_rfl
    have ne : q ≠ p := (bk.nodup.mem_erase_iff.mp mem).1
    simp [Broker.expiryOf, Broker.delete, ne]
  | accept _ => exact ord.sublist mono (List.Sublist.refl _) (fun _ _ => rfl) le_rfl
  | enlist _ _ _ out => exact ord.enlist weaker mono out
  | refresh _ => exact absurd rfl (no _)
  | give _ _ _ _ => exact ord.sublist mono List.erase_sublist (fun _ _ => rfl) le_rfl

/-- Every action but a new expiry keeps the order. -/
lemma InOrder.act (mono : Monotone clock) (ord : InOrder R clock b) (bk : Book b) {l : Label}
    (act : Act clock b l b') (no : ∀ p, l ≠ .refresh p) : InOrder R clock b' := by
  obtain ⟨tr, run, labels⟩ := act.changes bk
  suffices main : Book b' ∧ InOrder R clock b' from main.2
  refine run.invariant_on (fun b => Book b ∧ InOrder R clock b) (fun k => ∀ p, k.label ≠ .refresh p)
    (fun k mem p h => no p ?_) ⟨bk, ord⟩
    fun _ _ _ no inv ch => ⟨inv.1.change ch, inv.2.change weaker mono inv.1 ch no⟩
  have mem := label_mem labels mem (by rw [h]; nofun)
  rw [h] at mem
  exact (List.mem_singleton.mp mem).symm

end Order

section Refresh

variable (mono : Monotone clock)
include mono

/-- A new expiry is not later than one given now. -/
lemma InOrder.refresh_bound (ord : InOrder R clock b) (p : Addr) (w : Worker) :
    ∀ q ∈ (b.refresh clock p w).waiting, (b.refresh clock p w).expiryOf q ≤
      clock (b.refresh clock p w).reads + HEARTBEAT_EXPIRY := by
  have later : clock b.reads ≤ clock (b.refresh clock p w).reads := mono (Nat.le_succ _)
  intro q mem
  by_cases h : q = p
  · subst h
    simpa [Broker.expiryOf, Broker.refresh] using later
  · have other : (b.refresh clock p w).expiryOf q = b.expiryOf q := by
      simp [Broker.expiryOf, Broker.refresh, h]
    rw [other]
    exact (ord.bound q mem).trans (Nat.add_le_add_right later _)

/-- A refresh in order keeps the order. -/
lemma InOrder.refresh (ord : InOrder (· ≤ ·) clock b) (bk : Book b) (ok : RefreshInOrder clock b p)
    (w : Worker) : InOrder (· ≤ ·) clock (b.refresh clock p w) := by
  have others : ∀ q, q ≠ p → (b.refresh clock p w).expiryOf q = b.expiryOf q := by
    intro q ne
    simp [Broker.expiryOf, Broker.refresh, ne]
  have new : (b.refresh clock p w).expiryOf p = clock b.reads + HEARTBEAT_EXPIRY := by
    simp [Broker.expiryOf, Broker.refresh]
  have waiting : (b.refresh clock p w).waiting = b.waiting := rfl
  refine ⟨?_, ord.refresh_bound mono p w⟩
  rw [waiting]
  by_cases mem : p ∈ b.waiting
  · -- those before it expire no later than before, those behind it no earlier than its new expiry
    obtain ⟨l₁, l₂, split⟩ := List.append_of_mem mem
    have nd := bk.nodup
    have sorted := ord.sorted
    have behind := ok l₁ l₂ split
    have bound : ∀ q ∈ l₁, b.expiryOf q ≤ clock b.reads + HEARTBEAT_EXPIRY :=
      fun q hq => ord.bound q (by simp [split, hq])
    rw [split] at nd sorted ⊢
    obtain ⟨nd₁, nd₂, disj⟩ := List.nodup_append.mp nd
    obtain ⟨out, nd₂⟩ := List.nodup_cons.mp nd₂
    obtain ⟨s₁, s₂, cross⟩ := List.pairwise_append.mp sorted
    obtain ⟨first, s₂⟩ := List.pairwise_cons.mp s₂
    have ne₁ : ∀ q ∈ l₁, q ≠ p := fun q hq => disj q hq p List.mem_cons_self
    have ne₂ : ∀ q ∈ l₂, q ≠ p := fun q hq h => out (h ▸ hq)
    refine List.pairwise_append.mpr ⟨?_, List.pairwise_cons.mpr ⟨?_, ?_⟩, ?_⟩
    · refine s₁.imp_of_mem fun {q r} hq hr le => ?_
      rw [others q (ne₁ q hq), others r (ne₁ r hr)]
      exact le
    · intro q hq
      rw [new, others q (ne₂ q hq)]
      exact behind q hq
    · refine s₂.imp_of_mem fun {q r} hq hr le => ?_
      rw [others q (ne₂ q hq), others r (ne₂ r hr)]
      exact le
    · intro q hq r hr
      rw [others q (ne₁ q hq)]
      obtain rfl | hr := List.mem_cons.mp hr
      · rw [new]
        exact bound q hq
      · rw [others r (ne₂ r hr)]
        exact cross q hq r (List.mem_cons_of_mem _ hr)
  · refine ord.sorted.imp_of_mem fun {q r} hq hr le => ?_
    rw [others q fun h => mem (h ▸ hq), others r fun h => mem (h ▸ hr)]
    exact le

end Refresh

section Purge

/-- A purge takes workers off the front of the list that have expired at a reading of the clock, and
leaves the expiries of the others alone. -/
lemma purgeLoop_drops (n : Nat) (bk : Book b) (e : purgeLoop clock n b = some b') :
    ∃ dropped, b.waiting = dropped ++ b'.waiting ∧
      (∀ p ∈ dropped, ∃ i, i < b'.reads ∧ b.expiryOf p ≤ clock i) ∧
      ∀ p ∈ b'.waiting, b'.expiryOf p = b.expiryOf p := by
  induction n generalizing b with
  | zero =>
    cases e
    exact ⟨[], rfl, fun p mem => absurd mem List.not_mem_nil, fun _ _ => rfl⟩
  | succ n ih =>
    cases hws : b.waiting with
    | nil =>
      rw [purgeLoop, hws] at e
      cases e
      exact ⟨[], hws.symm, fun p mem => absurd mem List.not_mem_nil, fun _ _ => rfl⟩
    | cons p ws =>
      obtain ⟨w, _, _, hw, _⟩ := bk.live (show p ∈ b.waiting by simp [hws])
      rw [purgeLoop_cons n hws hw] at e
      by_cases live : clock b.reads < w.expiry
      · rw [if_pos live] at e
        cases e
        exact ⟨[], hws.symm, fun p mem => absurd mem List.not_mem_nil, fun _ _ => rfl⟩
      · -- the first worker has expired, and the others are as they were
        have bk₁ : Book b.read := bk.congr rfl rfl rfl rfl rfl
        have bk₂ : Book (b.read.delete p w) := bk₁.delete hw
        rw [if_neg live, sWorkerDelete_eq bk₁.toRoster hw, Option.bind_some] at e
        obtain ⟨dropped, rest, expired, same⟩ := ih bk₂ e
        have waiting : (b.read.delete p w).waiting = ws := by simp [Broker.delete, Broker.read, hws]
        have reads : b.reads < b'.reads := (purgeLoop_updates n bk₂.toRoster e).2.reads
        rw [waiting] at rest
        have others : ∀ q ∈ ws, (b.read.delete p w).expiryOf q = b.expiryOf q := by
          intro q mem
          have nd := bk.nodup
          rw [hws, List.nodup_cons] at nd
          have ne : q ≠ p := fun h => nd.1 (h ▸ mem)
          simp [Broker.expiryOf, Broker.delete, Broker.read, ne]
        refine ⟨p :: dropped, by rw [rest, List.cons_append], ?_, fun q mem => ?_⟩
        · refine List.forall_mem_cons.mpr ⟨⟨b.reads, reads, ?_⟩, fun q mem => ?_⟩
          · rw [expiryOf_some hw]
            omega
          · rw [← others q (by rw [rest]; exact List.mem_append_left _ mem)]
            exact expired q mem
        · rw [same q mem, others q (by rw [rest]; exact List.mem_append_right _ mem)]

/-- After a purge every worker on the list is live at the last reading of the clock, if no expired
worker was behind one that was not. -/
lemma purge_live (bk : Book b) (e : sBrokerPurge clock b = some b')
    (ord : b.reads < b'.reads → Unpassed clock b (b'.reads - 1)) :
    ∀ p ∈ b'.waiting, clock (b'.reads - 1) < b'.expiryOf p := by
  obtain ⟨b₁, tr, e₁, _, _, exit⟩ := purge_spec clock bk
  cases e₁.symm.trans e
  obtain ⟨dropped, split, _, same⟩ := purgeLoop_drops _ bk e
  intro p mem
  cases hws : b'.waiting with
  | nil => simp [hws] at mem
  | cons q ws =>
    obtain ⟨w, hw, read, live⟩ := exit q ws hws
    rw [← expiryOf_some hw] at live
    have sorted := ord read
    rw [Unpassed, split, hws] at sorted
    have first := (List.pairwise_cons.mp (List.pairwise_append.mp sorted).2.1).1
    rw [hws] at mem same
    obtain rfl | mem := List.mem_cons.mp mem
    · exact live
    · -- if it had expired, so would the first one
      by_contra expired
      have before := first p mem
      rw [← same p (List.mem_cons_of_mem _ mem), ← same q List.mem_cons_self] at before
      exact absurd (before (Nat.le_of_not_lt expired)) (Nat.not_le.mpr live)

/-- A purge is complete exactly when, at its last reading of the clock, no expired worker is behind
one that is not. -/
lemma purgeComplete_iff (mono : Monotone clock) (bk : Book b) :
    PurgeComplete clock b ↔ ∀ b', sBrokerPurge clock b = some b' → b.reads < b'.reads →
      Unpassed clock b (b'.reads - 1) := by
  constructor
  · rintro ⟨b', e, all⟩ b'' e' read
    cases e.symm.trans e'
    obtain ⟨dropped, split, expired, same⟩ := purgeLoop_drops _ bk e
    have gone : ∀ p ∈ dropped, b.expiryOf p ≤ clock (b'.reads - 1) := by
      intro p mem
      obtain ⟨i, lt, old⟩ := expired p mem
      exact old.trans (mono (Nat.le_sub_one_of_lt lt))
    rw [Unpassed, split, List.pairwise_append]
    refine ⟨List.pairwise_of_forall_mem_list fun p hp _ _ _ => gone p hp,
      List.pairwise_of_forall_mem_list fun _ _ q hq old => ?_, fun p hp _ _ _ => gone p hp⟩
    have live := all q hq (b'.reads - 1) (by omega) (by omega)
    rw [same q hq] at live
    omega
  · intro ord
    obtain ⟨b', _, e, _⟩ := purge_spec clock bk
    refine ⟨b', e, fun p mem n _ lt => ?_⟩
    exact (mono (Nat.le_sub_one_of_lt lt)).trans_lt (purge_live bk e (ord b' e) p mem)

end Purge

section Sent

/-- Only giving a request to a worker sends one. -/
lemma SentLive.change (live : SentLive b) {k : Kind} (ch : Change clock b k b') (no : k ≠ .give) :
    SentLive b' := by
  cases ch with
  | give _ _ _ _ => exact absurd rfl no
  | _ => exact live

/-- The clock is not turned back. -/
lemma Change.reads_le {k : Kind} (ch : Change clock b k b') : b.reads ≤ b'.reads := by
  cases ch with
  | read | enlist | refresh => exact Nat.le_succ _
  | _ => exact le_rfl

lemma Act.reads_le (bk : Book b) {l : Label} (act : Act clock b l b') : b.reads ≤ b'.reads := by
  obtain ⟨tr, run, _⟩ := act.changes bk
  exact run.invariant (b.reads ≤ ·.reads) le_rfl fun _ _ _ le ch => le.trans ch.reads_le

/-- Dispatching purges first, and so sends requests to live workers. -/
lemma SentLive.dispatch (bk : Book b) (ex : (b.services name).isSome) (live : SentLive b)
    (e : sServiceDispatch clock b name none = some b')
    (ord : ∀ n, b.reads ≤ n → n < b'.reads → Unpassed clock b n) : SentLive b' := by
  obtain ⟨b₁, b₂, tr₁, tr, e₁, run₁, kinds₁, e₂, run, kinds, _⟩ := dispatch_spec clock bk ex
  cases e₂.symm.trans e
  have le : b₁.reads ≤ b'.reads :=
    run.invariant (b₁.reads ≤ ·.reads) le_rfl fun _ _ _ le ch => le.trans ch.reads_le
  have alive := purge_live bk e₁ fun read => ord (b₁.reads - 1) (by omega) (by omega)
  have live₁ : SentLive b₁ := by
    refine run₁.invariant_on SentLive (· ≠ .give) (fun k mem => ?_) live
      fun _ _ _ no live ch => live.change ch no
    obtain h | h := kinds₁ k mem <;> simp [h]
  -- through the loop the clock is not read, and the list only gets shorter
  suffices main : Book b' ∧ (∀ p ∈ b'.waiting, clock (b'.reads - 1) < b'.expiryOf p) ∧
    SentLive b' from
    main.2.2
  refine run.invariant_on
    (fun b => Book b ∧ (∀ p ∈ b.waiting, clock (b.reads - 1) < b.expiryOf p) ∧ SentLive b)
    (· = .give) kinds ⟨bk.changes run₁, alive, live₁⟩ ?_
  rintro b k b' rfl ⟨bk, alive, live⟩ ch
  refine ⟨bk.change ch, ?_⟩
  cases ch with
  | @give name s p w ws r rs hs hws hrs hw =>
    have queue : b.queue name = some s.waiting := by simp [Broker.queue, hs]
    have mem := ((bk.queueMem name _ queue p).mp (by simp [hws])).1
    refine ⟨fun q hq => alive q (List.mem_of_mem_erase hq), fun e he => ?_⟩
    obtain he | he := List.mem_append.mp he
    · exact live e he
    · rw [List.mem_singleton.mp he]
      have := alive p mem
      rw [expiryOf_some hw] at this
      exact this

/-- Every action sends requests to live workers, if no expired one is behind another when it reads
the clock. -/
lemma SentLive.act (mono : Monotone clock) (bk : Book b) (live : SentLive b) {l : Label}
    (act : Act clock b l b')
    (ord : ∀ n, b.reads ≤ n → n < b'.reads → InOrder (ExpiresFirst (clock n)) clock b) :
    SentLive b' := by
  obtain ⟨ks, run, calm, _⟩ | ⟨k, b₁, name, ch, stir, _, _, ex, e⟩ := act.cases bk
  · exact run.invariant_on SentLive (· ≠ .give) (fun k mem => (calm k mem).2) live
      fun _ _ _ no live ch => live.change ch no
  · have give : k ≠ .give := by
      rintro rfl
      cases stir
    have refresh : ∀ p, k.label ≠ .refresh p := by
      intro p h
      cases k with
      | refresh _ => cases stir
      | _ => cases h
    refine (live.change ch give).dispatch (bk.change ch) ex e fun n lo hi => ?_
    have before := ord n (ch.reads_le.trans lo) hi
    exact (before.change (expiresFirst_of_le _) mono bk ch refresh).sorted

end Sent

section Handled

variable {ev : Event} {tr : List Label}

/-- What an event does apart from a HEARTBEAT is done without a new expiry. -/
lemma Handled.cases_refresh (handled : Handled b ev tr) :
    (∀ l ∈ tr, ∀ p, l ≠ .refresh p) ∨
      ∃ msg offer sender p, ev = .recv msg offer ∧
        workerCommand msg = some (sender, MDPW_HEARTBEAT) ∧
        b.workers (zframeStrhex sender) = some p ∧ tr = [.refresh p] := by
  have quiet (no : ∀ l ∈ loud tr, ∀ p, l ≠ .refresh p) : ∀ l ∈ tr, ∀ p, l ≠ .refresh p :=
    fun l mem p h => no l (mem_loud mem (by rw [h]; nofun)) p h
  cases handled with
  | tick labels => exact .inl (quiet (by simp [labels]))
  | quiet _ labels => exact .inl (quiet (by obtain h | h := labels <;> simp [h]))
  | submit _ labels => exact .inl (quiet (by simp [labels]))
  | turn _ _ labels => exact .inl (quiet (by obtain h | h := labels <;> simp [h]))
  | @refresh msg offer sender p wc reg => exact .inr ⟨msg, offer, sender, p, rfl, wc, reg, rfl⟩

/-- One step of the broker keeps an order that a HEARTBEAT keeps. -/
lemma InOrder.handled (mono : Monotone clock) (ord : InOrder R clock b)
    (weaker : ∀ e e', e ≤ e' → R e e') (bk : Book b) (run : Run (Act clock) b tr b')
    (handled : Handled b ev tr)
    (ok : ∀ msg offer sender p w, ev = .recv msg offer →
      workerCommand msg = some (sender, MDPW_HEARTBEAT) →
      b.workers (zframeStrhex sender) = some p → InOrder R clock (b.refresh clock p w)) :
    InOrder R clock b' := by
  obtain no | ⟨msg, offer, sender, p, rfl, wc, reg, rfl⟩ := handled.cases_refresh
  · suffices main : Book b' ∧ InOrder R clock b' from main.2
    exact run.invariant_on (fun b => Book b ∧ InOrder R clock b) (fun l => ∀ p, l ≠ .refresh p) no
      ⟨bk, ord⟩ fun _ _ _ no inv act => ⟨inv.1.act act, inv.2.act weaker mono inv.1 act no⟩
  · cases run with
    | cons first act =>
      cases first
      cases act with
      | refresh hw => exact ok msg offer sender p _ rfl wc reg

/-- One step of the broker sends requests to live workers, if no expired worker is behind another
when the clock is read. -/
lemma SentLive.handled (mono : Monotone clock) (bk : Book b) (live : SentLive b)
    (run : Run (Act clock) b tr b') (handled : Handled b ev tr)
    (ord : ∀ n, b.reads ≤ n → n < b'.reads → InOrder (ExpiresFirst (clock n)) clock b) :
    SentLive b' := by
  obtain no | ⟨msg, offer, sender, p, rfl, wc, reg, rfl⟩ := handled.cases_refresh
  · -- action by action; the orders at all readings are kept
    suffices main : Book b' ∧ b.reads ≤ b'.reads ∧
        (∀ n, InOrder (ExpiresFirst (clock n)) clock b →
          InOrder (ExpiresFirst (clock n)) clock b') ∧
        ((∀ n, b.reads ≤ n → n < b'.reads → InOrder (ExpiresFirst (clock n)) clock b) →
          SentLive b') from main.2.2.2 ord
    refine run.invariant_on (fun b₁ => Book b₁ ∧ b.reads ≤ b₁.reads ∧
        (∀ n, InOrder (ExpiresFirst (clock n)) clock b →
          InOrder (ExpiresFirst (clock n)) clock b₁) ∧
        ((∀ n, b.reads ≤ n → n < b₁.reads → InOrder (ExpiresFirst (clock n)) clock b) →
          SentLive b₁)) (fun l => ∀ p, l ≠ .refresh p) no
            ⟨bk, le_rfl, fun _ => id, fun _ => live⟩ ?_
    rintro b₁ l b₂ no ⟨bk₁, le, keeps, live₁⟩ act
    have later := act.reads_le bk₁
    refine ⟨bk₁.act act, le.trans later, fun n ord => ?_, fun ord => ?_⟩
    · exact (keeps n ord).act (expiresFirst_of_le _) mono bk₁ act no
    · refine (live₁ fun n lo hi => ord n lo (hi.trans_le later)).act mono bk₁ act fun n lo hi => ?_
      exact keeps n (ord n (le.trans lo) hi)
  · cases run with
    | cons first act =>
      cases first
      exact live.act mono bk act ord

end Handled

section System

variable {s s' : Sys} {a : Action}

/-- A step of the system is one of the broker, or the broker reads the clock at most. -/
lemma broker_step_cases (inv : SysInv s) (st : SysTrans clock s a s') :
    (∃ ev tr, eventOf s a = some ev ∧ Run (Act clock) s.broker tr s'.broker ∧
      Handled s.broker ev tr) ∨
      ∃ n, s.broker.reads ≤ n ∧ s'.broker = { s.broker with reads := n } := by
  obtain ⟨ev, he, mv⟩ | ⟨_, _, bal⟩ := inv.cases st
  · obtain ⟨b₁, tr, e₁, run, handled⟩ :=
      brokerStep_spec clock inv.book (brokerStep_accepts mv.step) mv.idle
    cases e₁.symm.trans mv.step
    exact .inl ⟨ev, tr, he, run, handled⟩
  · exact .inr bal.broker

/-- A step of the system sends requests to live workers, if no expired worker is behind another
when the clock is read. -/
lemma SentLive.step (mono : Monotone clock) (inv : SysInv s) (live : SentLive s.broker)
    (st : SysTrans clock s a s')
    (ord : ∀ n, s.broker.reads ≤ n → n < s'.broker.reads →
      InOrder (ExpiresFirst (clock n)) clock s.broker) : SentLive s'.broker := by
  obtain ⟨ev, tr, _, run, handled⟩ | ⟨n, _, e⟩ := broker_step_cases inv st
  · exact live.handled mono inv.book run handled ord
  · rw [e]
    exact live

/-- A step of the system keeps an order that a HEARTBEAT keeps. -/
lemma InOrder.step (mono : Monotone clock) (ord : InOrder R clock s.broker)
    (weaker : ∀ e e', e ≤ e' → R e e') (inv : SysInv s) (st : SysTrans clock s a s')
    (ok : ∀ msg offer sender p w, eventOf s a = some (.recv msg offer) →
      workerCommand msg = some (sender, MDPW_HEARTBEAT) →
      s.broker.workers (zframeStrhex sender) = some p →
      InOrder R clock (s.broker.refresh clock p w)) : InOrder R clock s'.broker := by
  obtain ⟨ev, tr, he, run, handled⟩ | ⟨n, le, e⟩ := broker_step_cases inv st
  · refine ord.handled mono weaker inv.book run handled fun msg offer sender p w h wc reg => ?_
    exact ok msg offer sender p w (h ▸ he) wc reg
  · rw [e]
    exact ord.sublist mono (List.Sublist.refl _) (fun _ _ => rfl) le

end System

/-- In every run in which every HEARTBEAT comes in order, purges are complete and requests are sent
to workers that have not expired. They are also sent so in every run in which no expired worker is
behind one that is not when the broker reads the clock; and a purge of the state reached is
complete exactly when this is so at its last reading. -/
theorem purge_complete_in_order (clock : Nat → Nat) (mono : Monotone clock) :
    (∀ tr s,
      Run (fun s a s' => HeartbeatInOrder clock s a ∧ SysTrans clock s a s') (sysNew clock) tr s →
      PurgeComplete clock s.broker ∧ SentLive s.broker) ∧
    ∀ tr s,
      Run (fun s a s' => (∀ n, s.broker.reads ≤ n → n < s'.broker.reads →
        Unpassed clock s.broker n) ∧
        SysTrans clock s a s') (sysNew clock) tr s →
      SentLive s.broker ∧
        (PurgeComplete clock s.broker ↔ ∀ b', sBrokerPurge clock s.broker = some b' →
          s.broker.reads < b'.reads → Unpassed clock s.broker (b'.reads - 1)) := by
  have start (R : Nat → Nat → Prop) : InOrder R clock (sysNew clock).broker := ⟨.nil, nofun⟩
  constructor
  · intro tr s run
    obtain ⟨inv, ord, live⟩ : SysInv s ∧ InOrder (· ≤ ·) clock s.broker ∧ SentLive s.broker := by
      refine run.invariant (fun s => SysInv s ∧ InOrder (· ≤ ·) clock s.broker ∧ SentLive s.broker)
        ⟨.new clock, start _, nofun⟩ ?_
      rintro s a s' ⟨inv, ord, live⟩ ⟨ok, st⟩
      refine ⟨inv.step st, ord.step mono (fun _ _ => id) inv st ?_,
        live.step mono inv st fun n _ _ => ord.weaken (expiresFirst_of_le _)⟩
      intro msg offer sender p w he wc reg
      exact ord.refresh mono inv.book (ok msg offer sender p he wc reg) w
    refine ⟨(purgeComplete_iff mono inv.book).mpr fun b' _ _ => ?_, live⟩
    exact (ord.weaken (expiresFirst_of_le _)).sorted
  · intro tr s run
    -- of the order only the bound is kept by every step
    obtain ⟨inv, _, live⟩ :
        SysInv s ∧ InOrder (fun _ _ => True) clock s.broker ∧ SentLive s.broker := by
      refine run.invariant
        (fun s => SysInv s ∧ InOrder (fun _ _ => True) clock s.broker ∧ SentLive s.broker)
        ⟨.new clock, start _, nofun⟩ ?_
      rintro s a s' ⟨inv, ord, live⟩ ⟨unpassed, st⟩
      refine ⟨inv.step st, ord.step mono (fun _ _ _ => trivial) inv st ?_,
        live.step mono inv st fun n lo hi => ⟨unpassed n lo hi, ord.bound⟩⟩
      intro msg offer sender p w _ _ _
      exact ⟨List.pairwise_of_forall fun _ _ => trivial, ord.refresh_bound mono p w⟩
    exact ⟨live, purgeComplete_iff mono inv.book⟩

/-- A clock that stands still but for steps from 0 to 2501, 5002 and 7503. -/
def steppingClock (n : Nat) : Nat :=
  if n < 9 then 0 else if n < 15 then 2501 else if n < 18 then 5002 else 7503

/-- The stepping clock does not run backwards. -/
lemma steppingClock_monotone : Monotone steppingClock := by
  intro m n le
  simp only [steppingClock]
  split_ifs <;> omega

/-- A worker becomes ready, the broker ticks, and a client sends it a request before it expires. -/
theorem purge_complete_in_order_request : ∃ s,
    Run (fun s a s' => HeartbeatInOrder steppingClock s a ∧ SysTrans steppingClock s a s')
      (sysNew steppingClock)
      [.client [[67], [], MDPC_CLIENT, [115], [120]] 1, .tick, .deliver [65] 0,
        .start [65] [115]] s ∧
    s.broker.sent.length = 1 ∧ SentLive s.broker := by
  -- no message of the run is a HEARTBEAT
  have start : HeartbeatInOrder steppingClock (sysNew steppingClock) (.start [65] [115]) := nofun
  have tick : ∀ s, HeartbeatInOrder steppingClock s .tick := nofun
  have client : ∀ s, HeartbeatInOrder steppingClock s
      (.client [[67], [], MDPC_CLIENT, [115], [120]] 1) := by
    rintro s _ _ _ _ ⟨⟩ ⟨⟩
  have ready : ∀ s, s.up [65] = [[[], MDPW_WORKER, MDPW_READY, [115]]] →
      HeartbeatInOrder steppingClock s (.deliver [65] 0) := by
    intro s up msg offer sender p ev cmd
    simp only [eventOf, up] at ev
    cases ev
    cases cmd
  have run : Run (fun s a s' => HeartbeatInOrder steppingClock s a ∧ SysTrans steppingClock s a s')
      (sysNew steppingClock)
      [.client [[67], [], MDPC_CLIENT, [115], [120]] 1, .tick, .deliver [65] 0,
          .start [65] [115]] _ :=
    .cons (.cons (.cons (.cons .nil ⟨start, rfl⟩) ⟨ready _ rfl, rfl⟩) ⟨tick _, rfl⟩) ⟨client _, rfl⟩
  exact ⟨_, run, rfl, ((purge_complete_in_order steppingClock steppingClock_monotone).1 _ _ run).2⟩

/-- Workers A and B become ready for different services, A first. A sends a heartbeat when it is
due, B does not. When B has expired, a purge leaves it on the list, because A is before it; and a
request for the service of B is sent to it. -/
theorem heartbeat_out_of_order : Monotone steppingClock ∧ ∃ s b' s',
    Run (SysTrans steppingClock) (sysNew steppingClock)
      [.tick, .tick, .deliver [65] 2, .timeout [65] [], .call [65] none, .tick, .deliver [66] 1,
        .tick, .deliver [65] 0, .start [66] [98], .start [65] [97]] s ∧
    (sBrokerPurge steppingClock s.broker = some b' ∧ 1 ∈ b'.waiting ∧
      b'.expiryOf 1 ≤ steppingClock s.broker.reads) ∧
    Run (SysTrans steppingClock) s [.client [[67], [], MDPC_CLIENT, [98], [120]] 2, .tick] s' ∧
    ∃ e ∈ s'.broker.sent, e.worker.expiry ≤ e.now := by
  have all : (exec (sysStep steppingClock) (sysNew steppingClock)
      [.tick, .tick, .deliver [65] 2, .timeout [65] [], .call [65] none, .tick, .deliver [66] 1,
        .tick,
        .deliver [65] 0, .start [66] [98], .start [65] [97]]).any (fun s =>
      (sBrokerPurge steppingClock s.broker).any (fun b' =>
        1 ∈ b'.waiting ∧ b'.expiryOf 1 ≤ steppingClock s.broker.reads) &&
      (exec (sysStep steppingClock) s [.client [[67], [], MDPC_CLIENT, [98], [120]] 2, .tick]).any
          (fun s' =>
        s'.broker.sent.any fun e => e.worker.expiry ≤ e.now)) = true := by
    decide +kernel
  obtain ⟨s, e, all⟩ := (Option.any_eq_true _ _).mp all
  obtain ⟨purged, sent⟩ := Bool.and_eq_true_iff.mp all
  obtain ⟨b', purge, late⟩ := (Option.any_eq_true _ _).mp purged
  obtain ⟨s', e', sent⟩ := (Option.any_eq_true _ _).mp sent
  obtain ⟨entry, mem, expired⟩ := List.any_eq_true.mp sent
  exact ⟨steppingClock_monotone, s, b', s', exec_run e, ⟨purge, of_decide_eq_true late⟩,
    exec_run e', entry, mem, of_decide_eq_true expired⟩

end SweetClib.Majordomo
