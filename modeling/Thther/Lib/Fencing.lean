import Thther.Lib.System
import Mathlib.Data.List.Basic
import Mathlib.Logic.Function.Basic

/-!
# Exclusive use of a resource under an epoch counter

Clients take a resource over from one another.  A client captures the resource's key, claims the
resource by incrementing its epoch (the new value is the client's ticket), announces itself by
raising a flag, uses the resource, and in the end compares its ticket with the epoch and lowers
the flag where they agree.  Each access is one step, and nothing orders the steps of different
clients.

A client is *active* when its ticket is the epoch and it has not left.  Three things one would
like to hold of every run need a condition on its steps each:

* `reachable_keyed`: the key an active client has captured is the current one, when no client is
  active at a rekeying and no claim is made with a key replaced since it was captured (`KeyOk`);
* `epoch_of_use`: whoever uses the resource holds the current epoch, when every user does at its
  step (`UseOk`);
* `flag_iff_active`: at rest the flag tells whether a client is active, when no client lowers the
  flag behind the back of its successor, nor raises it after its successor has left, or another
  client is there to make up for it (`FlagOk`).
-/

namespace Fencing

/-- Where a client is. -/
inductive Stage
  | out
  /-- The epoch is incremented and the flag is yet to be raised. -/
  | claiming
  | holding
  /-- The ticket was current, and the flag is yet to be lowered. -/
  | clearing
  | left
  deriving DecidableEq

/-- A client, with the key it has captured and the number of keys replaced before. -/
structure Client (K : Type*) where
  stage : Stage
  ticket : ℕ
  captured : Option (ℕ × K)

/-- One use of the resource, by the holder of `ticket`, while the epoch was `epoch`. -/
structure Use (M : Type*) where
  ticket : ℕ
  epoch : ℕ
  message : M
  deriving DecidableEq

/-- The resource and its clients.  `retired` are the keys replaced so far, oldest first. -/
structure Fence (ι K M : Type*) where
  epoch : ℕ
  flag : Bool
  key : K
  retired : List K
  uses : List (Use M)
  clients : ι → Client K

inductive Action (ι K M : Type*)
  | capture (i : ι)
  | claim (i : ι)
  | announce (i : ι)
  | check (i : ι)
  | clear (i : ι)
  | use (i : ι) (m : M)
  | rekey (k : K)

variable {ι K M : Type*} [DecidableEq ι]

namespace Fence

def set (s : Fence ι K M) (i : ι) (c : Client K) : Fence ι K M :=
  { s with clients := Function.update s.clients i c }

/-- One access. -/
def step (s : Fence ι K M) : Action ι K M → Option (Fence ι K M)
  | .capture i =>
    if (s.clients i).stage = .out then
      some (s.set i { s.clients i with captured := some (s.retired.length, s.key) })
    else none
  | .claim i =>
    if (s.clients i).stage = .out ∧ (s.clients i).captured ≠ none then
      some { (s.set i { s.clients i with stage := .claiming, ticket := s.epoch + 1 }) with
        epoch := s.epoch + 1 }
    else none
  | .announce i =>
    if (s.clients i).stage = .claiming then
      some { (s.set i { s.clients i with stage := .holding }) with flag := true }
    else none
  | .check i =>
    if (s.clients i).stage = .holding then
      if s.epoch = (s.clients i).ticket then some (s.set i { s.clients i with stage := .clearing })
      else some (s.set i { s.clients i with stage := .left })
    else none
  | .clear i =>
    if (s.clients i).stage = .clearing then
      some { (s.set i { s.clients i with stage := .left }) with flag := false }
    else none
  | .use i m =>
    if (s.clients i).stage = .holding then
      some { s with uses := s.uses ++ [⟨(s.clients i).ticket, s.epoch, m⟩] }
    else none
  | .rekey k => some { s with key := k, retired := s.retired ++ [s.key] }

end Fence

/-- The resource before its first client. -/
def system (ι K M : Type*) [DecidableEq ι] : System (Fence ι K M) (Action ι K M) where
  init s := s.epoch = 0 ∧ s.flag = false ∧ s.retired = [] ∧ s.uses = [] ∧
    ∀ i, s.clients i = ⟨.out, 0, none⟩
  step := Fence.step

namespace Fence

/-- The client has claimed the resource, and may have left it since. -/
def Claimed (s : Fence ι K M) (i : ι) : Prop := (s.clients i).stage ≠ .out

/-- The client that claimed the resource last. -/
def Holder (s : Fence ι K M) (i : ι) : Prop := s.Claimed i ∧ (s.clients i).ticket = s.epoch

/-- The holder, until it has left. -/
def Active (s : Fence ι K M) (i : ι) : Prop := s.Holder i ∧ (s.clients i).stage ≠ .left

@[simp] theorem set_clients_self (s : Fence ι K M) (i : ι) (c : Client K) :
    (s.set i c).clients i = c := by
  simp [set]

theorem set_clients_ne (s : Fence ι K M) {i j : ι} (c : Client K) (h : j ≠ i) :
    (s.set i c).clients j = s.clients j := by
  simp [set, h]

/-- What holds of every client after one of them has changed. -/
theorem forall_set {P : ι → Client K → Prop} {s : Fence ι K M} {i : ι} {c : Client K}
    (h : ∀ j, j ≠ i → P j (s.clients j)) (hc : P i c) : ∀ j, P j ((s.set i c).clients j) := by
  intro j
  by_cases hj : j = i
  · subst hj
    rwa [s.set_clients_self]
  · rw [s.set_clients_ne c hj]
    exact h j hj

/-- What a step can do. -/
inductive Stepped (s : Fence ι K M) : Action ι K M → Fence ι K M → Prop
  | capture (i : ι) : (s.clients i).stage = .out →
      Stepped s (.capture i)
        (s.set i { s.clients i with captured := some (s.retired.length, s.key) })
  | claim (i : ι) : (s.clients i).stage = .out → (s.clients i).captured ≠ none →
      Stepped s (.claim i)
        { (s.set i { s.clients i with stage := .claiming, ticket := s.epoch + 1 }) with
          epoch := s.epoch + 1 }
  | announce (i : ι) : (s.clients i).stage = .claiming →
      Stepped s (.announce i) { (s.set i { s.clients i with stage := .holding }) with flag := true }
  | current (i : ι) : (s.clients i).stage = .holding → (s.clients i).ticket = s.epoch →
      Stepped s (.check i) (s.set i { s.clients i with stage := .clearing })
  | superseded (i : ι) : (s.clients i).stage = .holding → (s.clients i).ticket ≠ s.epoch →
      Stepped s (.check i) (s.set i { s.clients i with stage := .left })
  | clear (i : ι) : (s.clients i).stage = .clearing →
      Stepped s (.clear i) { (s.set i { s.clients i with stage := .left }) with flag := false }
  | use (i : ι) (m : M) : (s.clients i).stage = .holding →
      Stepped s (.use i m) { s with uses := s.uses ++ [⟨(s.clients i).ticket, s.epoch, m⟩] }
  | rekey (k : K) : Stepped s (.rekey k) { s with key := k, retired := s.retired ++ [s.key] }

theorem step_cases {s s' : Fence ι K M} {a : Action ι K M} (h : s.step a = some s') :
    s.Stepped a s' := by
  cases a with
  | capture i =>
    simp only [step] at h
    split_ifs at h with hs
    cases h; exact .capture i hs
  | claim i =>
    simp only [step] at h
    split_ifs at h with hs
    cases h; exact .claim i hs.1 hs.2
  | announce i =>
    simp only [step] at h
    split_ifs at h with hs
    cases h; exact .announce i hs
  | check i =>
    simp only [step] at h
    split_ifs at h with hs ht
    · cases h; exact .current i hs ht.symm
    · cases h; exact .superseded i hs (Ne.symm ht)
  | clear i =>
    simp only [step] at h
    split_ifs at h with hs
    cases h; exact .clear i hs
  | use i m =>
    simp only [step] at h
    split_ifs at h with hs
    cases h; exact .use i m hs
  | rekey k => cases h; exact .rekey k

/-! ### What holds in every run -/

/-- What holds of a client: its ticket is one the epoch has had, its key one the resource has had,
and it claims with a key. -/
structure ClientOk (epoch : ℕ) (keys : List K) (c : Client K) : Prop where
  ticket_pos : c.stage ≠ .out → 0 < c.ticket
  ticket_le : c.stage ≠ .out → c.ticket ≤ epoch
  key : ∀ n k, c.captured = some (n, k) → keys[n]? = some k
  captured : c.stage ≠ .out → c.captured ≠ none

/-- All keys of the resource so far, the current one last. -/
def keys (s : Fence ι K M) : List K := s.retired ++ [s.key]

structure Inv (s : Fence ι K M) : Prop where
  client : ∀ i, ClientOk s.epoch s.keys (s.clients i)
  unique : ∀ i j, s.Claimed i → s.Claimed j →
    (s.clients i).ticket = (s.clients j).ticket → i = j
  holder : s.epoch ≠ 0 → ∃ i, s.Holder i

omit [DecidableEq ι] in
/-- Where all tickets stay, only the clients themselves have to be looked at. -/
theorem Inv.of_tickets {s s' : Fence ι K M} (h : s.Inv) (hepoch : s'.epoch = s.epoch)
    (hclient : ∀ i, ClientOk s'.epoch s'.keys (s'.clients i))
    (hsame : ∀ i, ((s'.clients i).stage = .out ↔ (s.clients i).stage = .out) ∧
      (s'.clients i).ticket = (s.clients i).ticket) : s'.Inv := by
  refine ⟨hclient, fun i j hi hj hij => ?_, fun he => ?_⟩
  · rw [(hsame i).2, (hsame j).2] at hij
    exact h.unique i j (fun ho => hi ((hsame i).1.2 ho)) (fun ho => hj ((hsame j).1.2 ho)) hij
  · rw [hepoch] at he
    obtain ⟨i, hi, hti⟩ := h.holder he
    exact ⟨i, fun ho => hi ((hsame i).1.1 ho), by rw [(hsame i).2, hti, hepoch]⟩

/-- A step of a client that has claimed the resource and keeps its ticket. -/
theorem Inv.move {s : Fence ι K M} (h : s.Inv) (st : Stage) {i : ι} (hi : s.Claimed i)
    (hst : st ≠ .out) (b : Bool) :
    Inv { (s.set i { s.clients i with stage := st }) with flag := b } := by
  refine h.of_tickets rfl ?_ ?_
  · exact forall_set (P := fun _ c => ClientOk s.epoch s.keys c) (fun j _ => h.client j)
      ⟨fun _ => (h.client i).ticket_pos hi, fun _ => (h.client i).ticket_le hi, (h.client i).key,
        fun _ => (h.client i).captured hi⟩
  · exact forall_set (P := fun j c => (c.stage = .out ↔ (s.clients j).stage = .out) ∧
      c.ticket = (s.clients j).ticket) (fun _ _ => ⟨Iff.rfl, rfl⟩)
      ⟨⟨fun ho => absurd ho hst, fun ho => absurd ho hi⟩, rfl⟩

theorem Inv.capture {s : Fence ι K M} (h : s.Inv) {i : ι} (hi : (s.clients i).stage = .out) :
    Inv (s.set i { s.clients i with captured := some (s.retired.length, s.key) }) := by
  refine h.of_tickets rfl ?_ ?_
  · refine forall_set (P := fun _ c => ClientOk s.epoch s.keys c) (fun j _ => h.client j)
      ⟨fun ho => absurd hi ho, fun ho => absurd hi ho, fun n k hk => ?_, fun ho => absurd hi ho⟩
    simp only [Option.some.injEq, Prod.mk.injEq] at hk
    obtain ⟨rfl, rfl⟩ := hk
    exact List.getElem?_concat_length
  · exact forall_set (P := fun j c => (c.stage = .out ↔ (s.clients j).stage = .out) ∧
      c.ticket = (s.clients j).ticket) (fun _ _ => ⟨Iff.rfl, rfl⟩) ⟨Iff.rfl, rfl⟩

/-- The new ticket is above all others. -/
theorem Inv.claim {s : Fence ι K M} (h : s.Inv) {i : ι} (hc : (s.clients i).captured ≠ none) :
    Inv { (s.set i { s.clients i with stage := .claiming, ticket := s.epoch + 1 }) with
      epoch := s.epoch + 1 } := by
  have hself := s.set_clients_self i { s.clients i with stage := .claiming, ticket := s.epoch + 1 }
  have hother : ∀ j, j ≠ i → _ := fun j hj => s.set_clients_ne
    { s.clients i with stage := .claiming, ticket := s.epoch + 1 } hj
  refine ⟨?_, fun a b ha hb hab => ?_, fun _ => ⟨i, ?_, ?_⟩⟩
  · refine forall_set (P := fun _ c => ClientOk (s.epoch + 1) s.keys c) (fun j _ => ?_)
      ⟨fun _ => Nat.succ_pos _, fun _ => Nat.le_refl _, (h.client i).key, fun _ => hc⟩
    have hj := h.client j
    exact ⟨hj.ticket_pos, fun ho => Nat.le_succ_of_le (hj.ticket_le ho), hj.key, hj.captured⟩
  · dsimp only [Claimed] at ha hb hab
    by_cases hai : a = i <;> by_cases hbi : b = i
    · rw [hai, hbi]
    · subst hai
      rw [hother b hbi] at hb hab
      rw [hself] at hab
      have hle := (h.client b).ticket_le hb
      dsimp only at hab
      omega
    · subst hbi
      rw [hother a hai] at ha hab
      rw [hself] at hab
      have hle := (h.client a).ticket_le ha
      dsimp only at hab
      omega
    · rw [hother a hai] at ha hab
      rw [hother b hbi] at hb hab
      exact h.unique a b ha hb hab
  · dsimp only [Claimed]
    rw [hself]
    exact nofun
  · dsimp only
    rw [hself]

omit [DecidableEq ι] in
theorem Inv.rekey {s : Fence ι K M} (h : s.Inv) (k : K) :
    Inv { s with key := k, retired := s.retired ++ [s.key] } := by
  refine h.of_tickets rfl (fun i => ?_) fun _ => ⟨Iff.rfl, rfl⟩
  have hi := h.client i
  refine ⟨hi.ticket_pos, hi.ticket_le, fun n k' hk => ?_, hi.captured⟩
  have hold := hi.key n k' hk
  exact List.getElem?_append_left (List.getElem?_eq_some_iff.1 hold).1 ▸ hold

theorem Inv.step {s s' : Fence ι K M} {a : Action ι K M} (h : s.Inv) (hs : s.step a = some s') :
    s'.Inv := by
  cases step_cases hs with
  | capture i hi => exact h.capture hi
  | claim i hi hc => exact h.claim hc
  | announce i hi => exact h.move .holding (by rw [Claimed, hi]; exact nofun) nofun true
  | current i hi _ =>
    exact h.move .clearing (by rw [Claimed, hi]; exact nofun) nofun s.flag
  | superseded i hi _ =>
    exact h.move .left (by rw [Claimed, hi]; exact nofun) nofun s.flag
  | clear i hi => exact h.move .left (by rw [Claimed, hi]; exact nofun) nofun false
  | use i m hi => exact ⟨h.client, h.unique, h.holder⟩
  | rekey k => exact h.rekey k

theorem inv_init {s : Fence ι K M} (h : (system ι K M).init s) : s.Inv := by
  obtain ⟨he, -, -, -, hc⟩ := h
  refine ⟨fun i => ?_, fun i j hi => ?_, fun h0 => absurd he h0⟩
  · rw [hc i]
    exact ⟨fun ho => absurd rfl ho, fun ho => absurd rfl ho, nofun, fun ho => absurd rfl ho⟩
  · exact absurd (by rw [hc i]) hi

theorem reachable_inv {s : Fence ι K M} (hs : (system ι K M).Reachable s) : s.Inv :=
  System.invariant (I := Inv) (fun _ hi => inv_init hi) (fun _ _ _ h hst => h.step hst) hs

/-! ### The key of the active client -/

/-- The resource is rekeyed while no client is active, and claimed with its current key. -/
def KeyOk (s : Fence ι K M) : Action ι K M → Prop
  | .rekey _ => ∀ i, ¬ s.Active i
  | .claim i => ∀ n k, (s.clients i).captured = some (n, k) → n = s.retired.length
  | _ => True

/-- Every active client has captured the current key. -/
def Keyed (s : Fence ι K M) : Prop :=
  ∀ i, s.Active i → ∃ n, (s.clients i).captured = some (n, s.key)

/-- A step of one client that neither claims nor captures makes nobody active. -/
theorem Keyed.move {s : Fence ι K M} (h : s.Keyed) (st : Stage) {i : ι} (hi : s.Claimed i)
    (hst : st = .left ∨ (s.clients i).stage ≠ .left) (b : Bool) :
    Keyed { (s.set i { s.clients i with stage := st }) with flag := b } := by
  refine forall_set (P := fun _ c => (c.stage ≠ .out ∧ c.ticket = s.epoch) ∧ c.stage ≠ .left →
    ∃ n, c.captured = some (n, s.key)) (fun j _ => h j) ?_
  rintro ⟨⟨-, ht⟩, hl⟩
  refine h i ⟨⟨hi, ht⟩, ?_⟩
  rcases hst with hst | hst
  · exact absurd hst hl
  · exact hst

theorem Keyed.step {s s' : Fence ι K M} {a : Action ι K M} (hinv : s.Inv) (h : s.Keyed)
    (hok : s.KeyOk a) (hs : s.step a = some s') : s'.Keyed := by
  cases step_cases hs with
  | capture i hi =>
    refine forall_set (P := fun _ c => (c.stage ≠ .out ∧ c.ticket = s.epoch) ∧ c.stage ≠ .left →
      ∃ n, c.captured = some (n, s.key)) (fun j _ => h j) ?_
    rintro ⟨⟨ho, -⟩, -⟩
    exact absurd hi ho
  | claim i hi hc =>
    refine forall_set (P := fun _ c => (c.stage ≠ .out ∧ c.ticket = s.epoch + 1) ∧
      c.stage ≠ .left → ∃ n, c.captured = some (n, s.key)) (fun j _ => ?_) fun _ => ?_
    · -- every older ticket is below the new epoch
      rintro ⟨⟨ho, ht⟩, -⟩
      have hle := (hinv.client j).ticket_le ho
      omega
    · obtain ⟨⟨n, k⟩, hnk⟩ := Option.ne_none_iff_exists'.1 hc
      refine ⟨n, ?_⟩
      have hk := (hinv.client i).key n k hnk
      rw [hok n k hnk, keys, List.getElem?_concat_length, Option.some.injEq] at hk
      dsimp only
      rw [hnk, hk]
  | announce i hi =>
    exact h.move .holding (by rw [Claimed, hi]; exact nofun) (Or.inr (by rw [hi]; nofun))
      true
  | current i hi _ =>
    exact h.move .clearing (by rw [Claimed, hi]; exact nofun)
      (Or.inr (by rw [hi]; nofun)) s.flag
  | superseded i hi _ =>
    exact h.move .left (by rw [Claimed, hi]; exact nofun) (Or.inl rfl) s.flag
  | clear i hi =>
    exact h.move .left (by rw [Claimed, hi]; exact nofun) (Or.inl rfl) false
  | use i m hi => exact h
  | rekey k => exact fun i hi => absurd hi (hok i)

/-- **The key of an active client is the current one**, in every run that keeps to `KeyOk`. -/
theorem reachable_keyed {s : Fence ι K M} (hs : (system ι K M).ReachableWith KeyOk s) :
    s.Inv ∧ s.Keyed := by
  refine System.invariant_with (I := fun s => s.Inv ∧ s.Keyed) (fun s hi => ⟨inv_init hi, ?_⟩)
    (fun s a s' h hok hst => ⟨h.1.step hst, h.2.step h.1 hok hst⟩) hs
  obtain ⟨-, -, -, -, hc⟩ := hi
  intro i hi
  exact absurd (by rw [hc i]) hi.1.1

/-- The first step against `KeyOk` leaves an active client with another key, unless a key has come
up twice. -/
theorem Keyed.not_keyed_step {s s' : Fence ι K M} {a : Action ι K M} (hinv : s.Inv) (h : s.Keyed)
    (hok : ¬ s.KeyOk a) (hs : s.step a = some s') (hnd : s'.keys.Nodup) : ¬ s'.Keyed := by
  intro hkeyed
  cases step_cases hs with
  | claim i hi hc =>
    simp only [KeyOk, not_forall] at hok
    obtain ⟨n, k, hnk, hne⟩ := hok
    have hk := (hinv.client i).key n k hnk
    have hself := s.set_clients_self i
      { s.clients i with stage := .claiming, ticket := s.epoch + 1 }
    obtain ⟨m, hm⟩ := hkeyed i
      ⟨⟨by dsimp only [Claimed]; rw [hself]; exact nofun, by dsimp only; rw [hself]⟩,
        by dsimp only; rw [hself]; exact nofun⟩
    dsimp only at hm
    rw [hself] at hm
    dsimp only at hm
    rw [hnk, Option.some.injEq, Prod.mk.injEq] at hm
    -- the captured key and the current one stand at two places of the history
    have hlast : s.keys[s.retired.length]? = some s.key := List.getElem?_concat_length
    have hlt : n < s.keys.length := (List.getElem?_eq_some_iff.1 hk).1
    have hcur : k = s.key := hm.2
    rw [hcur, ← hlast] at hk
    exact hne ((List.getElem?_inj hlt hnd).1 hk)
  | rekey k =>
    simp only [KeyOk, not_forall, not_not] at hok
    obtain ⟨i, hi⟩ := hok
    obtain ⟨n, hn⟩ := h i hi
    obtain ⟨m, hm⟩ := hkeyed i hi
    dsimp only at hm
    rw [hn, Option.some.injEq, Prod.mk.injEq] at hm
    have hne : s.key ≠ k := by
      have := hnd
      simp only [keys] at this
      rw [List.append_assoc] at this
      have htail := (List.nodup_append.1 this).2.1
      simp at htail
      exact htail
    exact hne hm.2
  | _ => exact hok trivial

/-! ### Who uses the resource -/

/-- The resource is used under the current epoch. -/
def UseOk (s : Fence ι K M) : Action ι K M → Prop
  | .use i _ => (s.clients i).ticket = s.epoch
  | _ => True

/-- The uses in order: their epochs do not go back, and none is ahead of the resource's. -/
structure Ordered (s : Fence ι K M) : Prop where
  le : ∀ u ∈ s.uses, u.epoch ≤ s.epoch
  sorted : s.uses.Pairwise fun u v => u.epoch ≤ v.epoch

theorem Ordered.step {s s' : Fence ι K M} {a : Action ι K M} (h : s.Ordered)
    (hs : s.step a = some s') : s'.Ordered := by
  cases step_cases hs with
  | claim i _ _ => exact ⟨fun u hu => Nat.le_succ_of_le (h.le u hu), h.sorted⟩
  | use i m hi =>
    refine ⟨fun u hu => ?_, List.pairwise_append.2 ⟨h.sorted, List.pairwise_singleton _ _, ?_⟩⟩
    · rcases List.mem_append.1 hu with hu | hu
      · exact h.le u hu
      · obtain rfl := List.mem_singleton.1 hu
        exact Nat.le_refl s.epoch
    · intro u hu v hv
      rw [List.mem_singleton.1 hv]
      exact h.le u hu
  | _ => exact ⟨h.le, h.sorted⟩

theorem reachable_ordered {s : Fence ι K M} (hs : (system ι K M).Reachable s) : s.Ordered := by
  refine System.invariant (I := Ordered) (fun s hi => ?_) (fun _ _ _ h hst => h.step hst) hs
  obtain ⟨-, -, -, hu, -⟩ := hi
  refine ⟨?_, ?_⟩
  · rw [hu]; exact nofun
  · rw [hu]; exact List.Pairwise.nil

/-- **Every use is by the holder of its epoch**, in every run that keeps to `UseOk`. -/
theorem epoch_of_use {s : Fence ι K M} (hs : (system ι K M).ReachableWith UseOk s) :
    ∀ u ∈ s.uses, u.ticket = u.epoch := by
  refine System.invariant_with (I := fun s => ∀ u ∈ s.uses, u.ticket = u.epoch)
    (fun s hi => ?_) (fun s a s' h hok hst => ?_) hs
  · obtain ⟨-, -, -, hu, -⟩ := hi
    rw [hu]
    exact nofun
  · cases step_cases hst with
    | use i m hi =>
      intro u hu
      rcases List.mem_append.1 hu with hu | hu
      · exact h u hu
      · rw [List.mem_singleton.1 hu]
        exact hok
    | _ => exact h

/-! ### The flag -/

/-- The flag is lowered while the holder has it raised, or raised after the holder has left, only
if another client has still to raise it, or to lower it. -/
def FlagOk (s : Fence ι K M) : Action ι K M → Prop
  | .clear _ => ∀ j, s.Holder j → (s.clients j).stage = .holding →
      ∃ k, (s.clients k).stage = .claiming
  | .announce _ => ∀ j, s.Holder j → (s.clients j).stage = .left →
      ∃ k, (s.clients k).stage = .clearing
  | _ => True

/-- What the flag says about the holder, up to the steps other clients have still to make. -/
structure Flagged (s : Fence ι K M) : Prop where
  unclaimed : s.epoch = 0 → s.flag = false
  holding : ∀ i, s.Holder i → (s.clients i).stage = .holding →
    s.flag = true ∨ ∃ k, (s.clients k).stage = .claiming
  left : ∀ i, s.Holder i → (s.clients i).stage = .left →
    s.flag = false ∨ ∃ k, (s.clients k).stage = .clearing

/-- A client at another stage is another client, and where it was. -/
theorem exists_stage_set {s : Fence ι K M} {i : ι} {c : Client K} {st : Stage}
    (h : ∃ k, (s.clients k).stage = st) (hne : (s.clients i).stage ≠ st) :
    ∃ k, ((s.set i c).clients k).stage = st := by
  obtain ⟨k, hk⟩ := h
  have hki : k ≠ i := by
    rintro rfl
    exact hne hk
  exact ⟨k, by rw [s.set_clients_ne c hki]; exact hk⟩

/-- After a step of client `i`, a holder is either `i` or the one there was. -/
theorem holder_set {s : Fence ι K M} {i j : ι} {c : Client K} (hj : (s.set i c).Holder j) :
    (j = i ∧ c.ticket = s.epoch) ∨ (j ≠ i ∧ s.Holder j) := by
  by_cases hji : j = i
  · subst hji
    obtain ⟨-, ht⟩ := hj
    rw [s.set_clients_self] at ht
    exact Or.inl ⟨rfl, ht⟩
  · obtain ⟨ho, ht⟩ := hj
    rw [Claimed, s.set_clients_ne c hji] at ho
    rw [s.set_clients_ne c hji] at ht
    exact Or.inr ⟨hji, ho, ht⟩

theorem Flagged.step {s s' : Fence ι K M} {a : Action ι K M} (hinv : s.Inv) (h : s.Flagged)
    (hok : s.FlagOk a) (hs : s.step a = some s') : s'.Flagged := by
  cases step_cases hs with
  | capture i hi =>
    have hstage : ∀ j, ((s.set i { s.clients i with
        captured := some (s.retired.length, s.key) }).clients j).stage = (s.clients j).stage :=
      forall_set (P := fun j c => c.stage = (s.clients j).stage) (fun _ _ => rfl) rfl
    refine ⟨h.unclaimed, fun j hj hst => ?_, fun j hj hst => ?_⟩
    · rw [hstage] at hst
      rcases holder_set hj with ⟨rfl, -⟩ | ⟨-, hj⟩
      · rw [hi] at hst; cases hst
      · exact (h.holding j hj hst).imp id fun hk => exists_stage_set hk (by rw [hi]; nofun)
    · rw [hstage] at hst
      rcases holder_set hj with ⟨rfl, -⟩ | ⟨-, hj⟩
      · rw [hi] at hst; cases hst
      · exact (h.left j hj hst).imp id fun hk => exists_stage_set hk (by rw [hi]; nofun)
  | claim i hi hc =>
    -- the new holder is still to raise the flag
    have hnew : ∀ j, Holder { (s.set i { s.clients i with
        stage := .claiming, ticket := s.epoch + 1 }) with epoch := s.epoch + 1 } j →
          ((s.set i { s.clients i with
            stage := .claiming, ticket := s.epoch + 1 }).clients j).stage = .claiming := by
      rintro j ⟨ho, ht⟩
      by_cases hji : j = i
      · subst hji
        rw [s.set_clients_self]
      · dsimp only [Claimed] at ho ht
        rw [s.set_clients_ne _ hji] at ho ht
        have := (hinv.client j).ticket_le ho
        omega
    refine ⟨fun h0 => absurd h0 (Nat.succ_ne_zero _), fun j hj hst => ?_, fun j hj hst => ?_⟩
    · exact absurd (hst.symm.trans (hnew j hj)) nofun
    · exact absurd (hst.symm.trans (hnew j hj)) nofun
  | announce i hi =>
    have hclaimed : (s.clients i).stage ≠ .out := by rw [hi]; exact nofun
    have hpos := (hinv.client i).ticket_pos hclaimed
    have hle := (hinv.client i).ticket_le hclaimed
    refine ⟨fun h0 => ?_, fun _ _ _ => Or.inl rfl, fun j hj hst => Or.inr ?_⟩
    · dsimp only [set] at h0
      omega
    · rcases holder_set hj with ⟨rfl, -⟩ | ⟨hji, hj⟩
      · rw [s.set_clients_self] at hst; cases hst
      · rw [s.set_clients_ne _ hji] at hst
        exact exists_stage_set (hok j hj hst) (by rw [hi]; nofun)
  | current i hi ht =>
    refine ⟨h.unclaimed, fun j hj hst => ?_, fun j hj hst => ?_⟩
    · rcases holder_set hj with ⟨rfl, -⟩ | ⟨hji, hj⟩
      · rw [s.set_clients_self] at hst; cases hst
      · exact absurd (hinv.unique j i hj.1 (by rw [Claimed, hi]; nofun) (hj.2.trans ht.symm)) hji
    · rcases holder_set hj with ⟨rfl, -⟩ | ⟨hji, hj⟩
      · rw [s.set_clients_self] at hst; cases hst
      · exact absurd (hinv.unique j i hj.1 (by rw [Claimed, hi]; nofun) (hj.2.trans ht.symm)) hji
  | superseded i hi ht =>
    refine ⟨h.unclaimed, fun j hj hst => ?_, fun j hj hst => ?_⟩
    · rcases holder_set hj with ⟨rfl, htj⟩ | ⟨hji, hj⟩
      · exact absurd htj ht
      · rw [s.set_clients_ne _ hji] at hst
        exact (h.holding j hj hst).imp id fun hk => exists_stage_set hk (by rw [hi]; nofun)
    · rcases holder_set hj with ⟨rfl, htj⟩ | ⟨hji, hj⟩
      · exact absurd htj ht
      · rw [s.set_clients_ne _ hji] at hst
        exact (h.left j hj hst).imp id fun hk => exists_stage_set hk (by rw [hi]; nofun)
  | clear i hi =>
    refine ⟨fun _ => rfl, fun j hj hst => Or.inr ?_, fun _ _ _ => Or.inl rfl⟩
    rcases holder_set hj with ⟨rfl, -⟩ | ⟨hji, hj⟩
    · rw [s.set_clients_self] at hst; cases hst
    · rw [s.set_clients_ne _ hji] at hst
      exact exists_stage_set (hok j hj hst) (by rw [hi]; nofun)
  | use i m hi => exact ⟨h.unclaimed, h.holding, h.left⟩
  | rekey k => exact ⟨h.unclaimed, h.holding, h.left⟩

theorem reachable_flagged {s : Fence ι K M} (hs : (system ι K M).ReachableWith FlagOk s) :
    s.Inv ∧ s.Flagged := by
  refine System.invariant_with (I := fun s => s.Inv ∧ s.Flagged)
    (fun s hi => ⟨inv_init hi, ?_⟩)
    (fun s a s' h hok hst => ⟨h.1.step hst, h.2.step h.1 hok hst⟩) hs
  obtain ⟨-, hf, -, -, hc⟩ := hi
  refine ⟨fun _ => hf, fun i hi => ?_, fun i hi => ?_⟩
  · exact absurd (by rw [hc i]) hi.1
  · exact absurd (by rw [hc i]) hi.1

/-- Nobody is between a step on the epoch and its step on the flag. -/
def AtRest (s : Fence ι K M) : Prop :=
  ∀ i, (s.clients i).stage ≠ .claiming ∧ (s.clients i).stage ≠ .clearing

omit [DecidableEq ι] in
theorem Flagged.flag_iff_active {s : Fence ι K M} (hinv : s.Inv) (h : s.Flagged)
    (hrest : s.AtRest) : s.flag = true ↔ ∃ i, s.Active i := by
  constructor
  · intro hflag
    have he : s.epoch ≠ 0 := fun h0 => by
      rw [h.unclaimed h0] at hflag
      cases hflag
    obtain ⟨i, hi⟩ := hinv.holder he
    refine ⟨i, hi, fun hl => ?_⟩
    rcases h.left i hi hl with hf | ⟨k, hk⟩
    · rw [hf] at hflag
      cases hflag
    · exact (hrest k).2 hk
  · rintro ⟨i, hi, hl⟩
    obtain ⟨hnc, hncl⟩ := hrest i
    have hold : (s.clients i).stage = .holding := by
      cases hst : (s.clients i).stage with
      | out => exact absurd hst hi.1
      | claiming => exact absurd hst hnc
      | holding => rfl
      | clearing => exact absurd hst hncl
      | left => exact absurd hst hl
    rcases h.holding i hi hold with hf | ⟨k, hk⟩
    · exact hf
    · exact absurd hk (hrest k).1

/-- **At rest the flag tells whether a client is active**, in every run that keeps to `FlagOk`. -/
theorem flag_iff_active {s : Fence ι K M} (hs : (system ι K M).ReachableWith FlagOk s)
    (hrest : s.AtRest) : s.flag = true ↔ ∃ i, s.Active i :=
  (reachable_flagged hs).2.flag_iff_active (reachable_flagged hs).1 hrest

end Fence

end Fencing
