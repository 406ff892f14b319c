import Mathlib

/-! # Classic packet filters

The instructions of classic BPF that load words, compare and return. Jumps go forward only, so that a run is a recursion
over the instructions; it has no value when control leaves the program, a load is out of bounds or an instruction is unknown. -/

namespace HarnessConformance.Lib.Bpf
set_option autoImplicit false

abbrev Word := BitVec 32

structure Insn where
  code : ℕ
  jt : ℕ
  jf : ℕ
  k : Word
  deriving DecidableEq

/-- What a run returns after skipping some instructions, with this accumulator. -/
def exec (load : Word → Option Word) : List Insn → ℕ → Word → Option Word
  | [], _, _ => none
  | _ :: rest, skip + 1, a => exec load rest skip a
  | i :: rest, 0, a =>
    match i.code with
    | 0x20 => (load i.k).bind (exec load rest 0)
    | 0x15 => exec load rest (if a = i.k then i.jt else i.jf) a
    | 0x45 => exec load rest (if a &&& i.k ≠ 0 then i.jt else i.jf) a
    | 0x06 => some i.k
    | _ => none

section
variable {load : Word → Option Word} {rest : List Insn} {jt jf : ℕ} {a k : Word}

theorem exec_skip (i : Insn) (skip : ℕ) : exec load (i :: rest) (skip + 1) a = exec load rest skip a := rfl

theorem exec_load {w : Word} (h : load k = some w) : exec load (⟨0x20, jt, jf, k⟩ :: rest) 0 a = exec load rest 0 w := by
  have hexec : exec load (⟨0x20, jt, jf, k⟩ :: rest) 0 a = (load k).bind (exec load rest 0) := rfl
  rw [hexec, h, Option.bind_some]

theorem exec_equal : exec load (⟨0x15, jt, jf, k⟩ :: rest) 0 a = exec load rest (if a = k then jt else jf) a := rfl

theorem exec_bits : exec load (⟨0x45, jt, jf, k⟩ :: rest) 0 a = exec load rest (if a &&& k ≠ 0 then jt else jf) a := rfl

theorem exec_ret : exec load (⟨0x06, jt, jf, k⟩ :: rest) 0 a = some k := rfl

/-- A comparison in front of a return that is skipped when it fails. -/
theorem exec_equal_ret {action : Word} :
    exec load (⟨0x15, 0, 1, k⟩ :: ⟨0x06, jt, jf, action⟩ :: rest) 0 a = if a = k then some action else exec load rest 0 a := by
  rw [exec_equal]
  by_cases h : a = k
  · rw [if_pos h, if_pos h, exec_ret]
  · rw [if_neg h, if_neg h, exec_skip]

theorem exec_bits_ret {action : Word} :
    exec load (⟨0x45, 0, 1, k⟩ :: ⟨0x06, jt, jf, action⟩ :: rest) 0 a = if a &&& k ≠ 0 then some action else exec load rest 0 a := by
  rw [exec_bits]
  by_cases h : a &&& k ≠ 0
  · rw [if_pos h, if_pos h, exec_ret]
  · rw [if_neg h, if_neg h, exec_skip]

/-- A list of such comparisons returns for the first number that is equal. -/
theorem exec_table {α : Type} (number action : α → Word) (rows : List α) :
    exec load (rows.flatMap (fun r => [⟨0x15, 0, 1, number r⟩, ⟨0x06, 0, 0, action r⟩]) ++ rest) 0 a =
      match rows.find? fun r => a = number r with
      | some r => some (action r)
      | none => exec load rest 0 a := by
  induction rows with
  | nil => rfl
  | cons r rows ih =>
    rw [List.flatMap_cons, List.append_assoc, List.cons_append, List.cons_append, List.nil_append, exec_equal_ret, ih]
    by_cases h : a = number r
    · rw [if_pos h, List.find?_cons, decide_eq_true h]
    · rw [if_neg h, List.find?_cons, decide_eq_false h]

end

end HarnessConformance.Lib.Bpf
