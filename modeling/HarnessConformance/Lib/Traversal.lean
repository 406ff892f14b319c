import HarnessConformance.Lib.Json
import HarnessConformance.Lib.Outcome

/-! # Budgeted traversals of shared values

Values as a program holds them are objects that refer to objects, shared or even cyclic. A traversal charges every
occurrence it meets against one budget. It looks at no more objects than the budget allows, however they are shared,
and it charges no more than any weight that bounds its charges object by object. -/

namespace HarnessConformance.Lib
set_option autoImplicit false

/-! ## Objects -/

/-- One object, whose parts are references. -/
inductive Cell (ρ : Type) where
  | null
  | bool (b : Bool)
  | int (n : ℤ)
  | str (text : String)
  | list (items : List ρ)
  | dict (members : List (ρ × ρ))
  | foreign

abbrev Heap (ρ : Type) := ρ → Cell ρ

variable {ρ ε α β : Type}

namespace Cell

def isText : Cell ρ → Bool
  | str _ => true
  | _ => false

end Cell

mutual
/-- The object at a reference, written out, is a value. -/
def Unfolds (heap : Heap ρ) : Json → ρ → Prop
  | .null, ref => heap ref = .null
  | .bool b, ref => heap ref = .bool b
  | .int n, ref => heap ref = .int n
  | .str text, ref => heap ref = .str text
  | .arr vs, ref => ∃ items, heap ref = .list items ∧ UnfoldsItems heap vs items
  | .obj ms, ref => ∃ members, heap ref = .dict members ∧ UnfoldsMembers heap ms members
def UnfoldsItems (heap : Heap ρ) : List Json → List ρ → Prop
  | [], items => items = []
  | v :: vs, items => ∃ ref rest, items = ref :: rest ∧ Unfolds heap v ref ∧ UnfoldsItems heap vs rest
def UnfoldsMembers (heap : Heap ρ) : Json.Members → List (ρ × ρ) → Prop
  | [], members => members = []
  | (k, v) :: ms, members => ∃ key ref rest, members = (key, ref) :: rest ∧ heap key = .str k ∧ Unfolds heap v ref ∧
      UnfoldsMembers heap ms rest
end

theorem UnfoldsItems.length {heap : Heap ρ} {vs : List Json} {items : List ρ} (h : UnfoldsItems heap vs items) :
    items.length = vs.length := by
  induction vs generalizing items with
  | nil =>
    obtain rfl : items = [] := h
    rfl
  | cons v vs ih =>
    obtain ⟨ref, rest, rfl, -, hrest⟩ := h
    rw [List.length_cons, List.length_cons, ih hrest]

theorem UnfoldsMembers.length {heap : Heap ρ} {ms : Json.Members} {members : List (ρ × ρ)} (h : UnfoldsMembers heap ms members) :
    members.length = ms.length := by
  induction ms generalizing members with
  | nil =>
    obtain rfl : members = [] := h
    rfl
  | cons m ms ih =>
    obtain ⟨k, v⟩ := m
    obtain ⟨key, ref, rest, rfl, -, -, hrest⟩ := h
    rw [List.length_cons, List.length_cons, ih hrest]

/-- A value as the objects it is made of, none of them shared. -/
def tree : Heap Json
  | .null => .null
  | .bool b => .bool b
  | .int n => .int n
  | .str text => .str text
  | .arr vs => .list vs
  | .obj ms => .dict (ms.map fun m => (.str m.1, m.2))

theorem unfolds_tree (v : Json) : Unfolds tree v v := by
  induction v with
  | arr vs ih =>
    refine ⟨vs, rfl, ?_⟩
    induction vs with
    | nil => rfl
    | cons v vs ihs =>
      rw [List.forall_mem_cons] at ih
      exact ⟨v, vs, rfl, ih.1, ihs ih.2⟩
  | obj ms ih =>
    refine ⟨_, rfl, ?_⟩
    induction ms with
    | nil => rfl
    | cons m ms ihs =>
      rw [List.forall_mem_cons] at ih
      exact ⟨.str m.1, m.2, _, rfl, rfl, ih.1, ihs ih.2⟩
  | _ => rfl

/-! ## Metered steps -/

/-- What a traversal has looked at and what that has cost. -/
structure Meter where
  nodes : ℕ
  charged : ℕ

/-- A step that may refuse; what was counted before stays counted. -/
def Metered (ε α : Type) := Meter → Except ε α × Meter

namespace Metered

protected def pure (a : α) : Metered ε α := fun m => (.ok a, m)

protected def bind (x : Metered ε α) (f : α → Metered ε β) : Metered ε β := fun m =>
  match x m with
  | (.ok a, m) => f a m
  | (.error e, m) => (.error e, m)

instance : Monad (Metered ε) where
  pure := Metered.pure
  bind := Metered.bind

def lift (x : Except ε α) : Metered ε α := fun m => (x, m)

/-- One more object looked at. -/
def look : Metered ε Unit := fun m => (.ok (), { m with nodes := m.nodes + 1 })

/-- A charge, refused when it exceeds the budget. -/
def charge (large : ε) (budget cost : ℕ) : Metered ε Unit := fun m =>
  (if m.charged + cost ≤ budget then .ok () else .error large, { m with charged := m.charged + cost })

/-- What holds of the value returned, or else of the refusal, and of the meter behind it. -/
def Ensures (x : Metered ε α) (m : Meter) (Q : α → Meter → Prop) (E : ε → Meter → Prop) : Prop :=
  match x m with
  | (.ok a, m) => Q a m
  | (.error e, m) => E e m

variable {x : Metered ε α} {m : Meter} {Q R : α → Meter → Prop} {E F : ε → Meter → Prop}

theorem Ensures.mono (h : x.Ensures m Q E) (hQ : ∀ a m', Q a m' → R a m') (hE : ∀ e m', E e m' → F e m') : x.Ensures m R F := by
  unfold Ensures at h ⊢
  generalize x m = outcome at h ⊢
  obtain ⟨e | a, m'⟩ := outcome
  · exact hE e m' h
  · exact hQ a m' h

theorem Ensures.bind {f : α → Metered ε β} {Q : β → Meter → Prop} (h : x.Ensures m (fun a m' => (f a).Ensures m' Q E) E) :
    (x >>= f).Ensures m Q E := by
  have hbind : (x >>= f) m = match x m with
    | (.ok a, m) => f a m
    | (.error e, m) => (.error e, m) := rfl
  unfold Ensures at h ⊢
  rw [hbind]
  generalize x m = outcome at h ⊢
  obtain ⟨e | a, m'⟩ := outcome <;> exact h

theorem ensures_lift {r : Except ε α} (hok : ∀ a, r = .ok a → Q a m) (herror : ∀ e, r = .error e → E e m) :
    (lift r).Ensures m Q E := by
  cases r with
  | ok a => exact hok a rfl
  | error e => exact herror e rfl

theorem ensures_charge {large : ε} {budget cost : ℕ} {Q : Unit → Meter → Prop}
    (hok : m.charged + cost ≤ budget → Q () ⟨m.nodes, m.charged + cost⟩)
    (herror : budget < m.charged + cost → E large ⟨m.nodes, m.charged + cost⟩) : (charge large budget cost).Ensures m Q E := by
  unfold Ensures charge
  by_cases hfits : m.charged + cost ≤ budget
  · rw [if_pos hfits]
    exact hok hfits
  · rw [if_neg hfits]
    exact herror (not_le.mp hfits)

/-- A loop keeps what each of its steps keeps; the first refusal ends it. -/
theorem ensures_forM {ι : Type} {f : ι → Metered ε Unit} {xs : List ι} {P : Meter → Prop}
    (h : ∀ i ∈ xs, ∀ m, P m → (f i).Ensures m (fun _ => P) E) (hm : P m) : (xs.forM f).Ensures m (fun _ => P) E := by
  induction xs generalizing m with
  | nil => exact hm
  | cons i xs ih =>
    rw [List.forall_mem_cons] at h
    exact .bind ((h.1 m hm).mono (fun _ _ hm' => ih h.2 hm') fun _ _ he => he)

end Metered

/-! ## Traversals -/

/-- How a traversal charges, what it refuses, and how deep it goes. -/
structure Scheme (ρ ε : Type) where
  budget : ℕ
  levels : ℕ
  deep : ε
  admits : Cell ρ → Except ε Unit
  cost : Cell ρ → ℕ
  large : ε
  settle : Cell ρ → Except ε Unit
  key : ε

namespace Scheme

open Metered

variable (s : Scheme ρ ε) (heap : Heap ρ)

/-- The traversal from a reference, with so many levels left. -/
def walk : ℕ → ρ → Metered ε Unit
  | 0, _ => do
    look
    lift (.error s.deep)
  | level + 1, ref => do
    look
    lift (s.admits (heap ref))
    charge s.large s.budget (s.cost (heap ref))
    lift (s.settle (heap ref))
    match heap ref with
    | .list items => items.forM (walk level)
    | .dict members => members.forM fun (key, item) => do
      lift (Outcome.guardWith s.key ((heap key).isText = true))
      walk level key
      walk level item
    | _ => pure ()

/-- The whole traversal, from an empty meter. -/
def run (ref : ρ) : Except ε Unit × Meter := s.walk heap s.levels ref ⟨0, 0⟩

variable {s heap}

/-! ### Objects looked at -/

/-- What is charged covers what was looked at. -/
def Within (s : Scheme ρ ε) (m : Meter) : Prop := m.nodes ≤ m.charged ∧ m.charged ≤ s.budget

theorem walk_within (hcost : ∀ cell, 1 ≤ s.cost cell) (level : ℕ) (ref : ρ) {m : Meter} (hm : s.Within m) :
    (s.walk heap level ref).Ensures m (fun _ => s.Within) fun _ m' => m'.nodes ≤ s.budget + 1 := by
  induction level generalizing ref m with
  | zero => exact Nat.succ_le_succ (hm.1.trans hm.2)
  | succ level ih =>
    obtain ⟨hnodes, hcharged⟩ := hm
    have hlooked : m.nodes + 1 ≤ s.budget + 1 := by omega
    have hpaid := hcost (heap ref)
    refine .bind (.bind (ensures_lift (fun _ _ => ?_) fun _ _ => hlooked))
    refine .bind (ensures_charge (fun hfits => ?_) fun _ => hlooked)
    have hwithin : s.Within ⟨m.nodes + 1, m.charged + s.cost (heap ref)⟩ := ⟨by dsimp only; omega, hfits⟩
    refine .bind (ensures_lift (fun _ _ => ?_) fun _ _ => hlooked)
    split
    · exact ensures_forM (fun item _ m' hm' => ih item hm') hwithin
    · refine ensures_forM (fun member _ m' hm' => ?_) hwithin
      have hlooked' : m'.nodes ≤ s.budget + 1 := Nat.le_succ_of_le (hm'.1.trans hm'.2)
      refine .bind (ensures_lift (fun _ _ => ?_) fun _ _ => hlooked')
      exact .bind ((ih member.1 hm').mono (fun _ _ hkey => ih member.2 hkey) fun _ _ he => he)
    · exact hwithin

/-- However its objects are shared, no more of them are looked at than the budget allows. -/
theorem nodes_le (hcost : ∀ cell, 1 ≤ s.cost cell) (ref : ρ) : (s.run heap ref).2.nodes ≤ s.budget + 1 := by
  have hstart : s.Within ⟨0, 0⟩ := ⟨le_rfl, Nat.zero_le _⟩
  have h := @walk_within ρ ε s heap hcost s.levels ref ⟨0, 0⟩ hstart
  unfold Metered.Ensures at h
  unfold run
  generalize s.walk heap s.levels ref ⟨0, 0⟩ = outcome at h ⊢
  obtain ⟨e | u, m'⟩ := outcome
  · exact h
  · exact Nat.le_succ_of_le (h.1.trans h.2)

/-! ### Charges -/

/-- What the parts of a value weigh, keys included. -/
def partsWeight (weight : Json → ℕ) : Json → ℕ
  | .arr vs => (vs.map weight).sum
  | .obj ms => (ms.map fun m => weight (.str m.1) + weight m.2).sum
  | _ => 0

/-- A weight that covers the charge of each object beside the weight of its parts. -/
structure Weighs (s : Scheme ρ ε) (heap : Heap ρ) (weight : Json → ℕ) : Prop where
  cost : ∀ ref v, Unfolds heap v ref → s.cost (heap ref) + partsWeight weight v ≤ weight v
  admits : ∀ ref v, Unfolds heap v ref → s.admits (heap ref) = .error s.large → s.budget < weight v
  settle : ∀ cell, s.settle cell ≠ .error s.large
  deep : s.deep ≠ s.large

/-- No more than a weight was charged, and the size was refused only of what weighs too much. -/
def Covered (s : Scheme ρ ε) (total : ℕ) (e : ε) (m : Meter) : Prop := m.charged ≤ total ∧ (e = s.large → s.budget < total)

theorem Covered.mono {total more : ℕ} {e : ε} {m : Meter} (h : s.Covered total e m) (hle : total ≤ more) : s.Covered more e m :=
  ⟨h.1.trans hle, fun he => (h.2 he).trans_le hle⟩

section
variable {weight : Json → ℕ} {level : ℕ} (ih : ∀ {v : Json} {ref : ρ} {m : Meter}, Unfolds heap v ref →
  (s.walk heap level ref).Ensures m (fun _ m' => m'.charged ≤ m.charged + weight v) (s.Covered (m.charged + weight v)))
include ih

theorem items_covered {vs : List Json} {items : List ρ} {m : Meter} (h : UnfoldsItems heap vs items) :
    (items.forM (s.walk heap level)).Ensures m (fun _ m' => m'.charged ≤ m.charged + (vs.map weight).sum)
      (s.Covered (m.charged + (vs.map weight).sum)) := by
  induction vs generalizing items m with
  | nil =>
    obtain rfl : items = [] := h
    exact le_rfl
  | cons v vs ihs =>
    obtain ⟨ref, rest, rfl, hv, hrest⟩ := h
    have hsum : m.charged + ((v :: vs).map weight).sum = m.charged + weight v + (vs.map weight).sum := by
      rw [List.map_cons, List.sum_cons, Nat.add_assoc]
    rw [hsum]
    refine .bind ((ih hv).mono (fun _ m' hm' => ?_) fun e m' he => he.mono (Nat.le_add_right _ _))
    have htotal := Nat.add_le_add_right hm' (vs.map weight).sum
    exact (ihs hrest).mono (fun _ _ h => h.trans htotal) fun e m'' he => he.mono htotal

theorem members_covered {ms : Json.Members} {members : List (ρ × ρ)} {m : Meter} (h : UnfoldsMembers heap ms members) :
    (members.forM fun (key, item) => do
      lift (Outcome.guardWith s.key ((heap key).isText = true))
      s.walk heap level key
      s.walk heap level item : Metered ε Unit).Ensures m
        (fun _ m' => m'.charged ≤ m.charged + partsWeight weight (.obj ms)) (s.Covered (m.charged + partsWeight weight (.obj ms))) := by
  induction ms generalizing members m with
  | nil =>
    obtain rfl : members = [] := h
    exact le_rfl
  | cons member ms ihs =>
    obtain ⟨k, v⟩ := member
    obtain ⟨key, ref, rest, rfl, hkey, hv, hrest⟩ := h
    have hsum : m.charged + partsWeight weight (.obj ((k, v) :: ms)) =
        m.charged + weight (.str k) + weight v + partsWeight weight (.obj ms) := by
      simp only [partsWeight, List.map_cons, List.sum_cons]
      omega
    have htext : (heap key).isText = true := by rw [hkey]; rfl
    have hk : Unfolds heap (.str k) key := hkey
    rw [hsum]
    refine .bind (.bind (ensures_lift (fun _ _ => ?_) fun e he => ?_))
    · refine .bind ((ih hk).mono (fun _ m' hm' => ?_) fun e m' he => he.mono (by omega))
      refine (ih hv).mono (fun _ m'' hm'' => ?_) fun e m'' he => he.mono (by omega)
      have htotal : m''.charged + partsWeight weight (.obj ms) ≤
          m.charged + weight (.str k) + weight v + partsWeight weight (.obj ms) := by omega
      exact (ihs hrest).mono (fun _ _ h => h.trans htotal) fun e _ he => he.mono htotal
    · rw [Outcome.guardWith_of htext] at he
      cases he

end

theorem walk_covered {weight : Json → ℕ} (hw : s.Weighs heap weight) (level : ℕ) {v : Json} {ref : ρ} {m : Meter}
    (hv : Unfolds heap v ref) : (s.walk heap level ref).Ensures m (fun _ m' => m'.charged ≤ m.charged + weight v)
      (s.Covered (m.charged + weight v)) := by
  induction level generalizing v ref m with
  | zero => exact ⟨Nat.le_add_right _ _, fun h => absurd h hw.deep⟩
  | succ level ih =>
    have hcost := hw.cost ref v hv
    refine .bind (.bind (ensures_lift (fun _ _ => ?_) fun e he => ⟨Nat.le_add_right _ _, ?_⟩))
    · refine .bind (ensures_charge (fun _ => ?_) fun hlarge => ⟨by dsimp only; omega, fun _ => by dsimp only at hlarge; omega⟩)
      refine .bind (ensures_lift (fun _ _ => ?_) fun e he => ⟨by dsimp only; omega, fun heq => absurd (heq ▸ he) (hw.settle _)⟩)
      split
      · rename_i items hitems
        cases v with
        | arr vs =>
          obtain ⟨items', hitems', hvs⟩ := hv
          obtain rfl := Cell.list.inj (hitems.symm.trans hitems')
          have hparts : partsWeight weight (.arr vs) = (vs.map weight).sum := rfl
          refine (items_covered ih hvs).mono (fun _ m' hm' => ?_) fun e m' he => he.mono ?_
          all_goals dsimp only at *; omega
        | _ =>
          try obtain ⟨_, hv, -⟩ := hv
          cases hitems.symm.trans hv
      · rename_i members hmembers
        cases v with
        | obj ms =>
          obtain ⟨members', hmembers', hms⟩ := hv
          obtain rfl := Cell.dict.inj (hmembers.symm.trans hmembers')
          refine (members_covered ih hms).mono (fun _ m' hm' => ?_) fun e m' he => he.mono ?_
          all_goals dsimp only at *; omega
        | _ =>
          try obtain ⟨_, hv, -⟩ := hv
          cases hmembers.symm.trans hv
      · change m.charged + s.cost (heap ref) ≤ m.charged + weight v
        omega
    · intro heq
      exact (hw.admits ref v hv (heq ▸ he)).trans_le (Nat.le_add_left _ _)

/-- No more is charged than the value weighs that the objects spell. -/
theorem charged_le {weight : Json → ℕ} (hw : s.Weighs heap weight) {v : Json} {ref : ρ} (hv : Unfolds heap v ref) :
    (s.run heap ref).2.charged ≤ weight v ∧ ((s.run heap ref).1 = .error s.large → s.budget < weight v) := by
  have h := walk_covered hw s.levels hv (m := ⟨0, 0⟩)
  unfold Metered.Ensures at h
  unfold run
  generalize s.walk heap s.levels ref ⟨0, 0⟩ = outcome at h ⊢
  obtain ⟨e | u, m'⟩ := outcome
  · obtain ⟨hcharged, hlarge⟩ := h
    rw [Nat.zero_add] at hcharged hlarge
    exact ⟨hcharged, fun heq => hlarge (Except.error.inj heq)⟩
  · exact ⟨h.trans_eq (Nat.zero_add _), nofun⟩

/-! ### Readers of whole values -/

end Scheme

/-- A traversal of values that passes on what is left of its budget. -/
structure Reader (ε : Type) where
  value : ℕ → ℤ → Json → Except ε ℤ
  items : ℕ → ℤ → List Json → Except ε ℤ
  members : ℕ → ℤ → Json.Members → Except ε ℤ

/-- The parts of a value, one level down. -/
def Reader.parts (b : Reader ε) (depth : ℕ) (left : ℤ) : Json → Except ε ℤ
  | .arr vs => b.items depth left vs
  | .obj ms => b.members depth left ms
  | _ => .ok left

namespace Scheme

open Metered

variable {s : Scheme ρ ε} {heap : Heap ρ} {b : Reader ε}

/-- A reader that decides value by value as the traversal does object by object. -/
structure Follows (s : Scheme ρ ε) (heap : Heap ρ) (b : Reader ε) : Prop where
  deep : ∀ left v, b.value s.levels left v = .error s.deep
  value : ∀ {v ref depth}, Unfolds heap v ref → depth < s.levels → ∀ charged : ℕ,
    b.value depth (s.budget - charged) v = (do
      s.admits (heap ref)
      Outcome.guardWith s.large (charged + s.cost (heap ref) ≤ s.budget)
      s.settle (heap ref)
      b.parts (depth + 1) (s.budget - (charged + s.cost (heap ref) : ℕ)) v)
  items_nil : ∀ depth left, b.items depth left [] = .ok left
  items_cons : ∀ depth left v vs, b.items depth left (v :: vs) = b.value depth left v >>= fun left => b.items depth left vs
  members_nil : ∀ depth left, b.members depth left [] = .ok left
  members_cons : ∀ depth left k v ms, b.members depth left ((k, v) :: ms) =
    b.value depth left (.str k) >>= fun left => b.value depth left v >>= fun left => b.members depth left ms

section
variable {level depth : ℕ} (hb : s.Follows heap b) (ih : ∀ {v : Json} {ref : ρ} {m : Meter}, Unfolds heap v ref →
  (s.walk heap level ref).Ensures m (fun _ m' => b.value depth (s.budget - m.charged) v = .ok ((s.budget : ℤ) - m'.charged))
    (fun e _ => b.value depth (s.budget - m.charged) v = .error e))
include hb ih

theorem items_follow {vs : List Json} {items : List ρ} {m : Meter} (h : UnfoldsItems heap vs items) :
    (items.forM (s.walk heap level)).Ensures m
      (fun _ m' => b.items depth (s.budget - m.charged) vs = .ok ((s.budget : ℤ) - m'.charged))
      (fun e _ => b.items depth (s.budget - m.charged) vs = .error e) := by
  induction vs generalizing items m with
  | nil =>
    obtain rfl : items = [] := h
    exact hb.items_nil depth _
  | cons v vs ihs =>
    obtain ⟨ref, rest, rfl, hv, hrest⟩ := h
    refine .bind ((ih hv).mono (fun _ m' hm' => ?_) fun e m' he => ?_)
    · rw [hb.items_cons, hm', Outcome.ok_bind]
      exact ihs hrest
    · rw [hb.items_cons, he]
      rfl

theorem members_follow {ms : Json.Members} {members : List (ρ × ρ)} {m : Meter} (h : UnfoldsMembers heap ms members) :
    (members.forM fun (key, item) => do
      lift (Outcome.guardWith s.key ((heap key).isText = true))
      s.walk heap level key
      s.walk heap level item : Metered ε Unit).Ensures m
      (fun _ m' => b.members depth (s.budget - m.charged) ms = .ok ((s.budget : ℤ) - m'.charged))
      (fun e _ => b.members depth (s.budget - m.charged) ms = .error e) := by
  induction ms generalizing members m with
  | nil =>
    obtain rfl : members = [] := h
    exact hb.members_nil depth _
  | cons member ms ihs =>
    obtain ⟨k, v⟩ := member
    obtain ⟨key, ref, rest, rfl, hkey, hv, hrest⟩ := h
    have htext : (heap key).isText = true := by rw [hkey]; rfl
    have hk : Unfolds heap (.str k) key := hkey
    refine .bind (.bind (ensures_lift (fun _ _ => ?_) fun e he => ?_))
    · refine .bind ((ih hk).mono (fun _ m' hm' => ?_) fun e m' he => ?_)
      · refine (ih hv).mono (fun _ m'' hm'' => ?_) fun e m'' he => ?_
        all_goals rw [hb.members_cons, hm', Outcome.ok_bind]
        · rw [hm'', Outcome.ok_bind]
          exact ihs hrest
        · rw [he]
          rfl
      · rw [hb.members_cons, he]
        rfl
    · rw [Outcome.guardWith_of htext] at he
      cases he

end

/-- The traversal of objects decides as the reader does on the value they spell. -/
theorem walk_follows (hb : s.Follows heap b) {level : ℕ} {v : Json} {ref : ρ} (hv : Unfolds heap v ref) {depth : ℕ}
    (hlevel : depth + level = s.levels) {m : Meter} : (s.walk heap level ref).Ensures m
      (fun _ m' => b.value depth (s.budget - m.charged) v = .ok ((s.budget : ℤ) - m'.charged))
      (fun e _ => b.value depth (s.budget - m.charged) v = .error e) := by
  induction level generalizing v ref depth m with
  | zero =>
    rw [Nat.add_zero] at hlevel
    change b.value depth (s.budget - m.charged) v = .error s.deep
    rw [hlevel, hb.deep]
  | succ level ih =>
    have hdepth : depth < s.levels := by omega
    rw [hb.value hv hdepth]
    refine .bind (.bind (ensures_lift (fun _ hadmits => ?_) fun e hadmits => ?_))
    · rw [hadmits, Outcome.ok_bind]
      refine .bind (ensures_charge (fun hfits => ?_) fun hlarge => ?_)
      · have hsize : Outcome.guardWith s.large (m.charged + s.cost (heap ref) ≤ s.budget) = .ok () := if_pos hfits
        rw [hsize, Outcome.ok_bind]
        refine .bind (ensures_lift (fun _ hsettle => ?_) fun e hsettle => ?_)
        · rw [hsettle, Outcome.ok_bind]
          split
          · rename_i items hitems
            cases v with
            | arr vs =>
              obtain ⟨items', hitems', hvs⟩ := hv
              obtain rfl := Cell.list.inj (hitems.symm.trans hitems')
              exact items_follow hb (fun h => ih h (by omega)) hvs
            | _ =>
              try obtain ⟨_, hv, -⟩ := hv
              cases hitems.symm.trans hv
          · rename_i members hmembers
            cases v with
            | obj ms =>
              obtain ⟨members', hmembers', hms⟩ := hv
              obtain rfl := Cell.dict.inj (hmembers.symm.trans hmembers')
              exact members_follow hb (fun h => ih h (by omega)) hms
            | _ =>
              try obtain ⟨_, hv, -⟩ := hv
              cases hmembers.symm.trans hv
          · rename_i hitems hmembers
            cases v with
            | arr vs =>
              obtain ⟨items, hcell, -⟩ := hv
              exact absurd hcell (hitems items)
            | obj ms =>
              obtain ⟨members, hcell, -⟩ := hv
              exact absurd hcell (hmembers members)
            | _ => exact (rfl : _ = Except.ok _)
        · rw [hsettle]
          rfl
      · have hsize : Outcome.guardWith s.large (m.charged + s.cost (heap ref) ≤ s.budget) = .error s.large :=
          if_neg (not_le.mpr hlarge)
        rw [hsize]
        rfl
    · rw [hadmits]
      rfl

/-- The whole traversal and the reader accept alike, and the reader is left with what was not charged. -/
theorem run_follows (hb : s.Follows heap b) {v : Json} {ref : ρ} (hv : Unfolds heap v ref) :
    b.value 0 s.budget v = (s.run heap ref).1.map fun _ => (s.budget : ℤ) - (s.run heap ref).2.charged := by
  have h := walk_follows hb hv (Nat.zero_add s.levels) (m := ⟨0, 0⟩)
  rw [Nat.cast_zero, sub_zero] at h
  unfold Metered.Ensures at h
  unfold run
  generalize s.walk heap s.levels ref ⟨0, 0⟩ = outcome at h ⊢
  obtain ⟨e | u, m'⟩ := outcome <;> exact h

/-- A reader refuses the size only of what weighs too much. -/
theorem large_of_follows {s : Scheme Json ε} (hb : s.Follows tree b) {weight : Json → ℕ} (hw : s.Weighs tree weight) {v : Json}
    (h : b.value 0 s.budget v = .error s.large) : s.budget < weight v := by
  have hv := unfolds_tree v
  rw [run_follows hb hv] at h
  refine (charged_le hw hv).2 ?_
  cases hr : (s.run tree v).1 with
  | ok u =>
    rw [hr] at h
    cases h
  | error e =>
    rw [hr] at h
    have heq : e = s.large := Except.error.inj h
    rw [heq]

end Scheme

end HarnessConformance.Lib
