import HarnessConformance.Lib.Bpf
import HarnessConformance.Python

/-! # The system call filter

`seccomp_program` of `live_linux_boundary.py`, and what it decides of every system call. -/

namespace HarnessConformance.LinuxBoundary
open Lib Lib.Outcome Lib.Bpf
set_option autoImplicit false

def require (reason : String) (condition : Prop) [Decidable condition] : Py Unit :=
  conform reason "protected Linux boundary refused" condition

/-! ## The program -/

/-- One entry of `ARCHES`: the architecture word, the number of `clone` and the numbers denied. -/
structure Arch where
  arch : ℕ
  clone : ℕ
  denied : List ℕ

def arches : String → Option Arch
  | "x86_64" => some ⟨0xC000003E, 56, [41, 42, 49, 50, 101, 165, 166, 272, 308, 321, 323, 425, 426, 427, 435, 438]⟩
  | "aarch64" => some ⟨0xC00000B7, 220, [198, 203, 200, 201, 117, 40, 39, 97, 268, 280, 282, 425, 426, 427, 435, 438]⟩
  | _ => none

/-- `CLONE_NEWUSER | CLONE_NEWNS | CLONE_NEWPID | CLONE_NEWNET | …` -/
def namespaceMask : Word := 0x10000000 ||| 0x20000 ||| 0x20000000 ||| 0x40000000 ||| 0x04000000 ||| 0x08000000 ||| 0x02000000

def kill : Word := 0x80000000
def allow : Word := 0x7FFF0000

/-- `0x00050000 | errno` -/
def errno (number : ℕ) : Word := 0x00050000 ||| BitVec.ofNat 32 number

def eperm : ℕ := 1
def enosys : ℕ := 38

def denial (number : ℕ) : Word := if number = 435 then errno enosys else errno eperm

/-- `seccomp_program(machine)` -/
def seccompProgram (machine : String) : Py (List Insn) :=
  match arches machine with
  | none => .error (.conformance "LINUX_ARCHITECTURE_UNAVAILABLE" "protected Linux boundary refused")
  | some ⟨arch, clone, denied⟩ =>
    .ok ([⟨0x20, 0, 0, 4⟩, ⟨0x15, 1, 0, BitVec.ofNat 32 arch⟩, ⟨0x06, 0, 0, kill⟩, ⟨0x20, 0, 0, 0⟩] ++
      (if machine = "x86_64" then [⟨0x45, 0, 1, 0x40000000⟩, ⟨0x06, 0, 0, kill⟩] else []) ++
      denied.flatMap (fun number => [⟨0x15, 0, 1, BitVec.ofNat 32 number⟩, ⟨0x06, 0, 0, denial number⟩]) ++
      [⟨0x15, 0, 3, BitVec.ofNat 32 clone⟩, ⟨0x20, 0, 0, 16⟩, ⟨0x45, 0, 1, namespaceMask⟩, ⟨0x06, 0, 0, errno eperm⟩,
        ⟨0x06, 0, 0, allow⟩])

/-! ## System calls -/

/-- `struct seccomp_data` -/
structure SeccompData where
  nr : Word
  arch : Word
  instructionPointer : BitVec 64
  args : Fin 6 → BitVec 64

namespace SeccompData

variable (d : SeccompData)

def low (x : BitVec 64) : Word := x.setWidth 32
def high (x : BitVec 64) : Word := (x >>> 32).setWidth 32

/-- The aligned word at an offset of the structure, little-endian. -/
def load (offset : Word) : Option Word :=
  match offset.toNat with
  | 0 => some d.nr
  | 4 => some d.arch
  | 8 => some (low d.instructionPointer)
  | 12 => some (high d.instructionPointer)
  | n =>
    if h : 16 ≤ n ∧ n < 64 then
      if n % 8 = 0 then some (low (d.args ⟨(n - 16) / 8, by omega⟩))
      else if n % 8 = 4 then some (high (d.args ⟨(n - 16) / 8, by omega⟩)) else none
    else none

/-- What the filter returns for a system call. -/
def verdict (machine : String) (a : Arch) : Word :=
  if d.arch ≠ BitVec.ofNat 32 a.arch then kill
  else if machine = "x86_64" ∧ d.nr &&& 0x40000000 ≠ 0 then kill
  else if d.nr = 435 then errno enosys
  else if (∃ number ∈ a.denied, d.nr = BitVec.ofNat 32 number) ∨
    d.nr = BitVec.ofNat 32 a.clone ∧ low (d.args 0) &&& namespaceMask ≠ 0 then errno eperm
  else allow

end SeccompData

/-! ## Its meaning -/

section
variable (d : SeccompData)

/-- The end of the program: `clone` without new namespaces, and everything else. -/
theorem exec_clone (clone : Word) (a : Word) :
    exec d.load [⟨0x15, 0, 3, clone⟩, ⟨0x20, 0, 0, 16⟩, ⟨0x45, 0, 1, namespaceMask⟩, ⟨0x06, 0, 0, errno eperm⟩, ⟨0x06, 0, 0, allow⟩] 0 a =
      some (if a = clone ∧ SeccompData.low (d.args 0) &&& namespaceMask ≠ 0 then errno eperm else allow) := by
  have hflags : d.load 16 = some (SeccompData.low (d.args 0)) := rfl
  rw [exec_equal]
  by_cases hclone : a = clone
  · rw [if_pos hclone, exec_load hflags, exec_bits_ret]
    by_cases hmask : SeccompData.low (d.args 0) &&& namespaceMask ≠ 0
    · rw [if_pos hmask, if_pos ⟨hclone, hmask⟩]
    · rw [if_neg hmask, if_neg fun h => hmask h.2, exec_ret]
  · rw [if_neg hclone, if_neg fun h => hclone h.1, exec_skip, exec_skip, exec_skip, exec_ret]

/-- Calls of the x32 interface are refused first, and on one machine only. -/
theorem exec_x32 (machine : String) (rest : List Insn) (a : Word) :
    exec d.load ((if machine = "x86_64" then [⟨0x45, 0, 1, 0x40000000⟩, ⟨0x06, 0, 0, kill⟩] else []) ++ rest) 0 a =
      if machine = "x86_64" ∧ a &&& 0x40000000 ≠ 0 then some kill else exec d.load rest 0 a := by
  by_cases hmachine : machine = "x86_64"
  · rw [if_pos hmachine, List.cons_append, List.cons_append, List.nil_append, exec_bits_ret]
    by_cases hbit : a &&& 0x40000000 ≠ 0
    · rw [if_pos hbit, if_pos ⟨hmachine, hbit⟩]
    · rw [if_neg hbit, if_neg fun h => hbit h.2]
  · rw [if_neg hmachine, if_neg fun h => hmachine h.1, List.nil_append]

end

/-- The numbers denied, among them that of `clone3`, differ as words. -/
theorem denied_words {machine : String} {a : Arch} (h : arches machine = some a) :
    435 ∈ a.denied ∧ ∀ number ∈ a.denied, BitVec.ofNat 32 number = 435 → number = 435 := by
  unfold arches at h
  split at h
  · obtain rfl := Option.some.inj h
    decide
  · obtain rfl := Option.some.inj h
    decide
  · cases h

/-- The program answers every call, and with the verdict. -/
theorem seccomp_meaning {machine : String} {a : Arch} (h : arches machine = some a) {code : List Insn}
    (hcode : seccompProgram machine = .ok code) (d : SeccompData) (start : Word) :
    exec d.load code 0 start = some (d.verdict machine a) := by
  obtain ⟨h435, hwords⟩ := denied_words h
  unfold seccompProgram at hcode
  rw [h] at hcode
  obtain rfl := Except.ok.inj hcode
  have harch : d.load 4 = some d.arch := rfl
  have hnr : d.load 0 = some d.nr := rfl
  simp only [List.cons_append, List.nil_append, List.append_assoc]
  rw [exec_load harch, exec_equal, SeccompData.verdict]
  by_cases hsame : d.arch = BitVec.ofNat 32 a.arch
  · rw [if_pos hsame, exec_skip, exec_load hnr, exec_x32, if_neg (not_not.mpr hsame)]
    by_cases hx32 : machine = "x86_64" ∧ d.nr &&& 0x40000000 ≠ 0
    · rw [if_pos hx32, if_pos hx32]
    rw [if_neg hx32, if_neg hx32, exec_table, exec_clone]
    cases hfind : a.denied.find? fun number => d.nr = BitVec.ofNat 32 number with
    | some number =>
      have hequal : d.nr = BitVec.ofNat 32 number := by simpa using List.find?_some hfind
      have hmem := List.mem_of_find?_eq_some hfind
      dsimp only
      by_cases hclone3 : number = 435
      · subst hclone3
        have hnumber : d.nr = 435 := hequal
        rw [if_pos hnumber]
        rfl
      · have hother : d.nr ≠ 435 := fun heq => hclone3 (hwords number hmem (hequal.symm.trans heq))
        rw [if_neg hother, if_pos (.inl ⟨number, hmem, hequal⟩), denial, if_neg hclone3]
    | none =>
      have hnone : ∀ number ∈ a.denied, d.nr ≠ BitVec.ofNat 32 number := fun number hmem =>
        by simpa using List.find?_eq_none.mp hfind number hmem
      have hother : d.nr ≠ 435 := hnone 435 h435
      dsimp only
      rw [if_neg hother]
      by_cases hclone : d.nr = BitVec.ofNat 32 a.clone ∧ SeccompData.low (d.args 0) &&& namespaceMask ≠ 0
      · rw [if_pos hclone, if_pos (.inr hclone)]
      · rw [if_neg hclone, if_neg (not_or.mpr ⟨fun ⟨number, hmem, hequal⟩ => hnone number hmem hequal, hclone⟩)]
  · rw [if_neg hsame, exec_ret, if_pos hsame]

/-- A new user namespace on the second machine. -/
theorem seccomp_meaning_namespace : ∃ code, seccompProgram "aarch64" = .ok code ∧
    exec (SeccompData.load ⟨220, 0xC00000B7, 0, fun _ => 0x10000011⟩) code 0 0 = some (errno eperm) := by
  have hverdict : SeccompData.verdict ⟨220, 0xC00000B7, 0, fun _ => 0x10000011⟩ "aarch64"
      ⟨0xC00000B7, 220, [198, 203, 200, 201, 117, 40, 39, 97, 268, 280, 282, 425, 426, 427, 435, 438]⟩ = errno eperm := by
    decide +kernel
  rw [← hverdict]
  exact ⟨_, rfl, seccomp_meaning rfl rfl _ _⟩

end HarnessConformance.LinuxBoundary
