import Whippet.Library.Mixers
import Whippet.Tables.HashTable

/-!
The hash of an address is a bijection (`address-hash.h`).

`hash_address` and its inverse choose a mixer by the size of a `uintptr_t`. The tables have
addresses of 64 bits.

Owns: both functions for a `uintptr_t` of any width, the two mixers, and that each function undoes
the other. Does not own: the tables.
-/

namespace Whippet.Tables

open Mixers

/-- `hash_address` where a `uintptr_t` has the given width. -/
def hashAddressOf (width : ℕ) (x : BitVec width) : BitVec width :=
  if width / 8 < 8 then
    let x := x ^^^ (x >>> 16)
    let x := x * 0x7feb352d
    let x := x ^^^ (x >>> 15)
    let x := x * 0x846ca68b
    x ^^^ (x >>> 16)
  else
    let x := x ^^^ (x >>> 30)
    let x := x * 0xbf58476d1ce4e5b9
    let x := x ^^^ (x >>> 27)
    let x := x * 0x94d049bb133111eb
    x ^^^ (x >>> 31)

/-- `unhash_address` where a `uintptr_t` has the given width. -/
def unhashAddressOf (width : ℕ) (x : BitVec width) : BitVec width :=
  if width / 8 < 8 then
    let x := x ^^^ (x >>> 16)
    let x := x * 0x43021123
    let x := x ^^^ ((x >>> 15) ^^^ (x >>> 30))
    let x := x * 0x1d69e2a5
    x ^^^ (x >>> 16)
  else
    let x := x ^^^ ((x >>> 31) ^^^ (x >>> 62))
    let x := x * 0x319642b2d24d8ec3
    let x := x ^^^ ((x >>> 27) ^^^ (x >>> 54))
    let x := x * 0x96de1b173f119089
    x ^^^ ((x >>> 30) ^^^ (x >>> 60))

theorem hashAddressOf_word (addr : Word) : hashAddressOf 64 addr = hashAddress addr := rfl

theorem unhashAddressOf_word (addr : Word) : unhashAddressOf 64 addr = unhashAddress addr := rfl

/-! ## The mixers -/

/-- The layers of the mixer of 32 bits. -/
def lowbias32 : BitVec 32 ≃ BitVec 32 :=
  (xorShiftEquiv 16 1 (by decide)).trans <|
    (mulEquiv 0x7feb352d 0x1d69e2a5 (by decide)).trans <|
      (xorShiftEquiv 15 2 (by decide)).trans <|
        (mulEquiv 0x846ca68b 0x43021123 (by decide)).trans <|
          xorShiftEquiv 16 1 (by decide)

/-- The layers of the mixer of 64 bits. -/
def splitmix64 : Word ≃ Word :=
  (xorShiftEquiv 30 2 (by decide)).trans <|
    (mulEquiv 0xbf58476d1ce4e5b9 0x96de1b173f119089 (by decide)).trans <|
      (xorShiftEquiv 27 2 (by decide)).trans <|
        (mulEquiv 0x94d049bb133111eb 0x319642b2d24d8ec3 (by decide)).trans <|
          xorShiftEquiv 31 2 (by decide)

theorem hashAddressOf_eq_lowbias32 (addr : BitVec 32) :
    hashAddressOf 32 addr = lowbias32 addr := rfl

theorem unhashAddressOf_eq_lowbias32 (k : BitVec 32) :
    unhashAddressOf 32 k = lowbias32.symm k := by
  simp only [lowbias32, Equiv.symm_trans_apply, xorShiftEquiv, mulEquiv, Equiv.coe_fn_symm_mk,
    xorShifts_one, xorShifts_two]
  rfl

theorem hashAddress_eq_splitmix64 (addr : Word) : hashAddress addr = splitmix64 addr := rfl

theorem unhashAddress_eq_splitmix64 (k : Word) : unhashAddress k = splitmix64.symm k := by
  simp only [splitmix64, Equiv.symm_trans_apply, xorShiftEquiv, mulEquiv, Equiv.coe_fn_symm_mk,
    xorShifts_two]
  rfl

theorem unhashAddress_hashAddress (addr : Word) : unhashAddress (hashAddress addr) = addr := by
  rw [unhashAddress_eq_splitmix64, hashAddress_eq_splitmix64]
  exact splitmix64.symm_apply_apply addr

theorem hashAddress_unhashAddress (k : Word) : hashAddress (unhashAddress k) = k := by
  rw [unhashAddress_eq_splitmix64, hashAddress_eq_splitmix64]
  exact splitmix64.apply_symm_apply k

/-- Each of the two functions undoes the other, with addresses of 64 and of 32 bits. -/
theorem addressHash_bijective :
    (∀ x : BitVec 64, unhashAddressOf 64 (hashAddressOf 64 x) = x ∧
      hashAddressOf 64 (unhashAddressOf 64 x) = x) ∧
    ∀ x : BitVec 32, unhashAddressOf 32 (hashAddressOf 32 x) = x ∧
      hashAddressOf 32 (unhashAddressOf 32 x) = x := by
  constructor
  · intro x
    constructor
    · exact unhashAddress_hashAddress x
    · exact hashAddress_unhashAddress x
  · intro x
    rw [hashAddressOf_eq_lowbias32, unhashAddressOf_eq_lowbias32, unhashAddressOf_eq_lowbias32,
      hashAddressOf_eq_lowbias32]
    constructor
    · exact lowbias32.symm_apply_apply x
    · exact lowbias32.apply_symm_apply x

end Whippet.Tables
