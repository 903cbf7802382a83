import Xv6.Vm.PageTable

namespace Xv6.Vm

open Xv6.Data

/-! # The macros of `riscv.h` as arithmetic -/

theorem PGROUNDDOWN_eq (a : Word) : PGROUNDDOWN a = (a >>> 12) <<< 12 := by
  have mask : ∀ i, i < 64 → (~~~(pageBytes - 1)).getLsbD i = decide (12 ≤ i) := by decide
  apply BitVec.eq_of_getLsbD_eq
  intro i inside
  rw [PGROUNDDOWN, BitVec.getLsbD_and, mask i inside, BitVec.getLsbD_shiftLeft,
    BitVec.getLsbD_ushiftRight]
  by_cases low : i < 12
  · simp [low, Nat.not_le.mpr low]
  · simp [low, Nat.le_of_not_lt low, inside]

theorem PGROUNDDOWN_toNat (a : Word) : (PGROUNDDOWN a).toNat = a.toNat / PGSIZE * PGSIZE := by
  have inside := a.isLt
  rw [PGROUNDDOWN_eq, BitVec.toNat_shiftLeft, BitVec.toNat_ushiftRight, Nat.shiftRight_eq_div_pow,
    Nat.shiftLeft_eq, PGSIZE]
  exact Nat.mod_eq_of_lt (by omega)

theorem PGROUNDUP_toNat {sz : Word} (fits : sz.toNat + (PGSIZE - 1) < 2 ^ 64) :
    (PGROUNDUP sz).toNat = (sz.toNat + (PGSIZE - 1)) / PGSIZE * PGSIZE := by
  have sum : (sz + pageBytes - 1).toNat = sz.toNat + (PGSIZE - 1) := by
    rw [pageBytes, PGSIZE] at *
    bv_omega
  rw [← sum]
  exact PGROUNDDOWN_toNat _

theorem PX_val (level : Nat) (va : Word) :
    (PX level va).val = va.toNat / 2 ^ (12 + 9 * level) % 512 := by
  show ((va >>> (12 + 9 * level)) &&& 0x1FF).toNat = _
  rw [BitVec.toNat_and, BitVec.toNat_ushiftRight, Nat.shiftRight_eq_div_pow]
  exact Nat.and_two_pow_sub_one_eq_mod _ 9

theorem PTE2PA_toNat (pte : Word) : (PTE2PA pte).toNat = pte.toNat / 1024 * 4096 % 2 ^ 64 := by
  rw [PTE2PA, BitVec.toNat_shiftLeft, BitVec.toNat_ushiftRight, Nat.shiftRight_eq_div_pow,
    Nat.shiftLeft_eq]

theorem PTE_FLAGS_toNat (pte : Word) : (PTE_FLAGS pte).toNat = pte.toNat % 1024 := by
  rw [PTE_FLAGS, BitVec.toNat_and]
  exact Nat.and_two_pow_sub_one_eq_mod _ 10

/-- Flags stand in the ten bits below the page number. -/
theorem PA2PTE_or_toNat {flags : Word} (pa : Word) (small : flags.toNat < 1024) :
    (PA2PTE pa ||| flags).toNat = pa.toNat / 4096 * 1024 + flags.toNat := by
  have inside := pa.isLt
  have number : (PA2PTE pa).toNat = pa.toNat / 4096 * 1024 := by
    rw [PA2PTE, BitVec.toNat_shiftLeft, BitVec.toNat_ushiftRight, Nat.shiftRight_eq_div_pow,
      Nat.shiftLeft_eq]
    exact Nat.mod_eq_of_lt (by omega)
  rw [BitVec.toNat_or, number, ← Nat.shiftLeft_eq _ 10]
  exact (Nat.shiftLeft_add_eq_or_of_lt small _).symm

theorem PTE2PA_or {page flags : Word} (aligned : page.toNat % PGSIZE = 0)
    (small : flags.toNat < 1024) : PTE2PA (PA2PTE page ||| flags) = page := by
  have inside := page.isLt
  apply BitVec.eq_of_toNat_eq
  rw [PTE2PA_toNat, PA2PTE_or_toNat page small]
  rw [PGSIZE] at aligned
  omega

theorem PTE_FLAGS_or {flags : Word} (page : Word) (small : flags.toNat < 1024) :
    PTE_FLAGS (PA2PTE page ||| flags) = flags := by
  apply BitVec.eq_of_toNat_eq
  rw [PTE_FLAGS_toNat, PA2PTE_or_toNat page small]
  omega

theorem and_flags {pte mask : Word} (low : mask &&& 0x3FF = mask) :
    PTE_FLAGS pte &&& mask = pte &&& mask := by
  rw [PTE_FLAGS, BitVec.and_assoc, BitVec.and_comm _ mask, low]

theorem valid_flags (pte : Word) : valid (PTE_FLAGS pte) = valid pte := by
  rw [valid, valid, and_flags (by decide)]

theorem valid_iff {pte : Word} : valid pte = true ↔ pte &&& PTE_V ≠ 0 := by
  rw [valid, decide_eq_true_eq]

theorem valid_or (pte : Word) : valid (pte ||| PTE_V) = true := by
  have set : ((pte ||| PTE_V) &&& PTE_V).getLsbD 0 = true := by
    simp [PTE_V]
  rw [valid_iff]
  intro zero
  rw [zero] at set
  simp at set

theorem valid_zero : valid 0 = false := by decide

theorem MAXVA_toNat : MAXVA.toNat = 2 ^ 38 := by decide

theorem pageBytes_toNat : pageBytes.toNat = PGSIZE := by decide

end Xv6.Vm
