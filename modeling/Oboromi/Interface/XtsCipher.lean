import Mathlib.Algebra.Field.ZMod
import Mathlib.Data.Nat.Bits
import Mathlib.Logic.Equiv.Fin.Basic
import Oboromi.Lib.LittleEndian
import Oboromi.Lib.MonicRemainder
import Oboromi.Model.Xts

/-!
# XTS encryption

The cipher the header was encrypted with, as mathematics: a block is a polynomial over the
field of two elements, the coefficient of `X ^ (8 * q + s)` being bit `s` of byte `q`, and α
is `X` modulo `X ^ 128 + X ^ 7 + X ^ 2 + X + 1`.  Block `j` of sector `s` is encrypted
under the tweak `α ^ j` times the encrypted sector number.
-/

set_option autoImplicit false

namespace Oboromi.Interface

open Oboromi.Lib Oboromi.Model Polynomial

/-! ## Blocks as polynomials -/

/-- The bits of a block, lowest first. -/
def bits (t : Block) : Fin (16 * 8) → ZMod 2 := fun i =>
  if (t.get i.divNat).toNat.testBit i.modNat then 1 else 0

/-- The block with the given bits. -/
def ofBits (v : Fin (16 * 8) → ZMod 2) : Block :=
  Vector.ofFn fun q => UInt8.ofNat (Nat.ofBits fun s : Fin 8 =>
    decide (v (finProdFinEquiv (q, s)) = 1))

noncomputable def modulus : (ZMod 2)[X] := X ^ 128 + X ^ 7 + X ^ 2 + X + 1

/-- A block as a polynomial. -/
noncomputable def polynomial (t : Block) : (ZMod 2)[X] := ofFn 128 (bits t)

/-- A block as a number, its first byte the lowest. -/
def leValue (t : Block) : ℕ := leNat t.toList

/-- The product of a block with α. -/
noncomputable def timesAlpha (t : Block) : Block :=
  ofBits (toFn 128 ((X * ofFn 128 (bits t)) %ₘ modulus))

/-! ## Encryption -/

/-- A number as a little-endian block. -/
def leBlock (n : ℕ) : Block := Vector.ofFn fun i => UInt8.ofNat (n / 256 ^ i.val)

/-- The tweak of block `j` of a sector. -/
noncomputable def tweak (cipher : BlockCipher) (key2 : Key) (sector : ℕ) : ℕ → Block
  | 0 => cipher.encryptBlock key2 (leBlock sector)
  | j + 1 => timesAlpha (tweak cipher key2 sector j)

/-- The sum of two blocks as polynomials. -/
def addBlocks (s t : Block) : Block := ofBits (bits s + bits t)

/-- One block under a tweak. -/
def encryptUnder (cipher : BlockCipher) (key1 : Key) (t p : Block) : Block :=
  addBlocks (cipher.encryptBlock key1 (addBlocks p t)) t

/-- One block under a tweak, decrypted. -/
def decryptUnder (cipher : BlockCipher) (key1 : Key) (t c : Block) : Block :=
  addBlocks (cipher.decryptBlock key1 (addBlocks c t)) t

/-- Block `k` of some bytes. -/
def byteBlock (bytes : List UInt8) (k : ℕ) : Block :=
  Vector.ofFn fun j => (bytes[16 * k + j.val]?).getD 0

/-- The bytes that are encrypted: those of the complete sectors among the first six. -/
def encryptedLength (length : ℕ) : ℕ := min 6 (length / 512) * 512

/-- The image of a plaintext: byte `i` of a complete sector is byte `i % 16` of its encrypted
block. -/
noncomputable def xtsEncryptHeader (cipher : BlockCipher) (headerKey : Vector UInt8 32)
    (plain : List UInt8) : List UInt8 :=
  plain.mapIdx fun i byte =>
    if i < encryptedLength plain.length then
      (encryptUnder cipher (Xts.cipherKey headerKey)
        (tweak cipher (Xts.tweakKey headerKey) (i / 512) (i % 512 / 16))
        (byteBlock plain (i / 16))).get (Fin.ofNat 16 i)
    else byte

end Oboromi.Interface
