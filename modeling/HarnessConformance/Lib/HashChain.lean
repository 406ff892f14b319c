import HarnessConformance.Lib.Replay

/-! # Digest-linked sequences

Each element names the digest of the one before it. With a digest that does not collide on the
elements at hand, the last digest and the length together fix the whole sequence. -/

namespace HarnessConformance.Lib.HashChain
set_option autoImplicit false

variable {α D : Type} (digest previous : α → D)

/-- The first element names `h`, every later one the digest of its predecessor. -/
def Linked (h : D) : List α → Prop
  | [] => True
  | e :: es => previous e = h ∧ Linked (digest e) es

/-- The digest the next element has to name. -/
def head (h : D) : List α → D
  | [] => h
  | e :: es => head (digest e) es

variable {digest previous}

@[simp] theorem linked_nil {h : D} : Linked digest previous h [] := trivial

@[simp] theorem head_nil {h : D} : head digest h [] = h := rfl

@[simp] theorem head_snoc {h : D} {es : List α} {e : α} : head digest h (es ++ [e]) = digest e := by
  induction es generalizing h with
  | nil => rfl
  | cons a es ih => exact ih

theorem linked_snoc {h : D} {es : List α} {e : α} :
    Linked digest previous h (es ++ [e]) ↔ Linked digest previous h es ∧ previous e = head digest h es := by
  induction es generalizing h with
  | nil => simp [Linked]
  | cons a es ih => simp only [List.cons_append, Linked, ih, head, and_assoc]

/-- Two linked sequences of one length with one head are the same sequence. -/
theorem eq_of_head {h : D} {es fs : List α} (hinj : Set.InjOn digest {e | e ∈ es ∨ e ∈ fs})
    (hes : Linked digest previous h es) (hfs : Linked digest previous h fs)
    (hlength : es.length = fs.length) (hhead : head digest h es = head digest h fs) : es = fs := by
  induction es using List.reverseRecOn generalizing fs with
  | nil => exact (List.length_eq_zero_iff.mp hlength.symm).symm
  | append_singleton es e ih =>
    cases fs using List.reverseRecOn with
    | nil => simp at hlength
    | append_singleton fs f =>
      rw [linked_snoc] at hes hfs
      rw [head_snoc, head_snoc] at hhead
      have hlast : e = f := hinj (by simp) (by simp) hhead
      have hsub : Set.InjOn digest {x | x ∈ es ∨ x ∈ fs} :=
        hinj.mono fun x hx => hx.imp (List.mem_append_left [e]) (List.mem_append_left [f])
      have hprevious : head digest h es = head digest h fs := by rw [← hes.2, ← hfs.2, hlast]
      have hinit := ih hsub hes.1 hfs.1 (by simpa using hlength) hprevious
      rw [hinit, hlast]

/-! ## Machines that number and link their items -/

variable {σ : Type} (digest previous) (sequence : α → ℕ)

/-- Items numbered from one and linked from `h`, with the digest and the number at their end. -/
structure Chained (h : D) (items : List α) (last : D) (count : ℕ) : Prop where
  count : count = items.length
  numbered : ∀ i a, items[i]? = some a → sequence a = i + 1
  linked : Linked digest previous h items
  last : last = head digest h items

/-- A machine whose state holds the last digest and the count, and whose items have to match them. -/
structure Chains (M : Machine σ α) (last : σ → D) (count : σ → ℕ) : Prop where
  sequence : ∀ {s a}, M.admits s a → sequence a = count s + 1
  previous : ∀ {s a}, M.admits s a → previous a = last s
  last_push : ∀ s a, last (M.push s a) = digest a
  count_push : ∀ s a, count (M.push s a) = count s + 1

variable {digest previous sequence}

theorem Chained.snoc {h last : D} {items : List α} {count : ℕ} (hc : Chained digest previous sequence h items last count)
    {a : α} (hsequence : sequence a = count + 1) (hprevious : previous a = last) :
    Chained digest previous sequence h (items ++ [a]) (digest a) (count + 1) := by
  refine ⟨?_, fun i b hb => ?_, ?_, head_snoc.symm⟩
  · rw [hc.count, List.length_append, List.length_singleton]
  · rcases Nat.lt_trichotomy i items.length with hi | rfl | hi
    · rw [List.getElem?_append_left hi] at hb
      exact hc.numbered i b hb
    · rw [List.getElem?_concat_length] at hb
      rw [← Option.some.inj hb, hsequence, hc.count]
    · rw [List.getElem?_eq_none (by simp; omega)] at hb
      cases hb
  · rw [linked_snoc, hprevious]
    exact ⟨hc.linked, hc.last⟩

/-- Every replay from an empty chain is chained. -/
theorem Chains.chained {M : Machine σ α} {last : σ → D} {count : σ → ℕ} (hM : Chains digest previous sequence M last count)
    {s t : σ} {items : List α} (hcount : count s = 0) (h : M.Replays s items t) :
    Chained digest previous sequence (last s) items (last t) (count t) := by
  refine h.induction (fun items t => Chained digest previous sequence (last s) items (last t) (count t)) ?_
    fun past u a _ hpast ha => ?_
  · exact ⟨hcount, by simp, trivial, rfl⟩
  · rw [hM.last_push, hM.count_push]
    exact hpast.snoc (hM.sequence ha) (hM.previous ha)

/-- The last digest and the count fix the items. -/
theorem Chained.eq {h last : D} {items others : List α} {count : ℕ} (hc : Chained digest previous sequence h items last count)
    (hc' : Chained digest previous sequence h others last count) (hinj : Set.InjOn digest {e | e ∈ items ∨ e ∈ others}) :
    items = others :=
  eq_of_head hinj hc.linked hc'.linked (hc.count ▸ hc'.count) (hc.last ▸ hc'.last)

end HarnessConformance.Lib.HashChain
