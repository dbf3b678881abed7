import Oboromi.Analysis.TweakAlgebra

/-!
# Header decryption inverts XTS encryption

The loops are described by what they leave at each position: byte `i` of a complete sector is
byte `i % 16` of its block, decrypted under the tweak of that block, and the other bytes are
as they were.  The tweak after `j` blocks is the `j`-th iterate of the carry code, which is
the product with `α ^ j`.
-/

set_option autoImplicit false

namespace Oboromi.Analysis

open Oboromi.Lib Oboromi.Model Oboromi.Interface Model.Xts

/-! ## Blocks -/

/-- The bytes of a block at an offset. -/
theorem blockAt_get (data : List UInt8) (o : ℕ) (j : Fin 16) :
    (blockAt data o).get j = data.getD (o + j.val) 0 := get_ofFn _ j

/-- Blocks are added byte by byte. -/
theorem xorBlock_get (a b : Block) (j : Fin 16) :
    (xorBlock a b).get j = a.get j ^^^ b.get j := get_ofFn _ j

/-- Adding a block twice cancels. -/
theorem xorBlock_cancel (a t : Block) : xorBlock (xorBlock a t) t = a := by
  apply ext_get
  intro j
  rw [xorBlock_get, xorBlock_get, UInt8.xor_assoc, UInt8.xor_self, UInt8.xor_zero]

/-- Blocks with the same bytes are the same. -/
theorem blockAt_congr {data data' : List UInt8} {o o' : ℕ}
    (h : ∀ j < 16, data[o + j]? = data'[o' + j]?) : blockAt data o = blockAt data' o' := by
  apply ext_get
  intro j
  rw [blockAt_get, blockAt_get, List.getD_eq_getElem?_getD, List.getD_eq_getElem?_getD,
    h j j.isLt]

/-- The code's blocks are those of the bytes. -/
theorem blockAt_eq (data : List UInt8) (k : ℕ) : blockAt data (k * 16) = byteBlock data k := by
  unfold blockAt byteBlock
  simp only [List.getD_eq_getElem?_getD, Nat.mul_comm k 16]

/-- The exclusive or of blocks is their sum. -/
theorem xorBlock_eq (s t : Block) : xorBlock s t = addBlocks s t := by
  unfold addBlocks
  rw [← bits_xorBlock, ofBits_bits]

/-- Encryption under a tweak, by the model's addition of blocks. -/
theorem encryptUnder_eq (cipher : BlockCipher) (key1 : Key) (t p : Block) :
    encryptUnder cipher key1 t p = xorBlock (cipher.encryptBlock key1 (xorBlock p t)) t := by
  rw [xorBlock_eq, xorBlock_eq]
  rfl

/-- Decryption under a tweak, by the model's addition of blocks. -/
theorem decryptUnder_eq (cipher : BlockCipher) (key1 : Key) (t c : Block) :
    decryptUnder cipher key1 t c = xorBlock (cipher.decryptBlock key1 (xorBlock c t)) t := by
  rw [xorBlock_eq, xorBlock_eq]
  rfl

/-- What was encrypted under a tweak is decrypted under it. -/
theorem decrypt_encryptUnder {cipher : BlockCipher}
    (hcipher : ∀ k b, cipher.decryptBlock k (cipher.encryptBlock k b) = b) (key1 : Key)
    (t p : Block) : decryptUnder cipher key1 t (encryptUnder cipher key1 t p) = p := by
  rw [decryptUnder_eq, encryptUnder_eq, xorBlock_cancel, hcipher, xorBlock_cancel]

/-! ## One sector -/

section Sector

variable (cipher : BlockCipher) (key1 : Key)

/-- Byte `i` of what the chunk loop makes of a sector. -/
def sectorByte (t : Block) (data : List UInt8) (i : ℕ) : UInt8 :=
  (decryptUnder cipher key1 (gfMulAlpha^[i / 16] t) (blockAt data (i / 16 * 16))).get
    (Fin.ofNat 16 i)

/-- The first block of a sector. -/
theorem sectorByte_first (t : Block) (data : List UInt8) {i : ℕ} (hi : i < 16) :
    sectorByte cipher key1 t data i =
      (decryptUnder cipher key1 t (blockAt data 0)).get ⟨i, hi⟩ := by
  have hindex : Fin.ofNat 16 i = ⟨i, hi⟩ := Fin.ext (Nat.mod_eq_of_lt hi)
  unfold sectorByte
  rw [Nat.div_eq_of_lt hi, hindex]
  rfl

/-- The rest of a sector is a sector under the next tweak. -/
theorem sectorByte_rest (t : Block) (data : List UInt8) (i : ℕ) :
    sectorByte cipher key1 t data (i + 16) =
      sectorByte cipher key1 (gfMulAlpha t) (data.drop 16) i := by
  have hindex : Fin.ofNat 16 (i + 16) = Fin.ofNat 16 i := Fin.ext (Nat.add_mod_right i 16)
  have hdiv : (i + 16) / 16 = i / 16 + 1 := Nat.add_div_right i (by norm_num)
  have hblock : blockAt data ((i / 16 + 1) * 16) = blockAt (data.drop 16) (i / 16 * 16) := by
    apply blockAt_congr
    intro j _
    rw [List.getElem?_drop]
    congr 1
    omega
  unfold sectorByte
  rw [hindex, hdiv, hblock, Function.iterate_succ_apply]

/-- By induction on the number of whole chunks. -/
theorem decryptChunks_getElem? (n : ℕ) (t : Block) (data : List UInt8)
    (h : 16 * n ≤ data.length) (i : ℕ) :
    (decryptChunks cipher key1 n t data)[i]? =
      if i < 16 * n then some (sectorByte cipher key1 t data i) else data[i]? := by
  induction n generalizing t data i with
  | zero => rfl
  | succ n ih =>
      have hdrop : 16 * n ≤ (data.drop 16).length := by
        rw [List.length_drop]
        omega
      simp only [decryptChunks, ← decryptUnder_eq]
      by_cases hi : i < 16
      · rw [List.getElem?_append_left (by simpa using hi), if_pos (by omega),
          sectorByte_first cipher key1 t data hi]
        exact List.getElem?_eq_getElem (by simpa using hi)
      · obtain ⟨i, rfl⟩ := Nat.exists_eq_add_of_le' (Nat.not_lt.mp hi)
        rw [List.getElem?_append_right (by simp), Vector.length_toList, Nat.add_sub_cancel,
          ih _ _ hdrop, sectorByte_rest, List.getElem?_drop, Nat.add_comm 16 i]
        by_cases hwhole : i < 16 * n
        · rw [if_pos hwhole, if_pos (by omega)]
        · rw [if_neg hwhole, if_neg (by omega)]

/-- Decrypting chunks keeps the length. -/
theorem length_decryptChunks (n : ℕ) (t : Block) (data : List UInt8)
    (h : 16 * n ≤ data.length) : (decryptChunks cipher key1 n t data).length = data.length := by
  induction n generalizing t data with
  | zero => rfl
  | succ n ih =>
      unfold decryptChunks
      rw [List.length_append, Vector.length_toList, ih _ _ (by rw [List.length_drop]; omega),
        List.length_drop]
      omega

end Sector

/-! ## The sectors -/

section Header

variable (cipher : BlockCipher) (key1 key2 : Key)

/-- The tweak the code starts a sector with. -/
def startTweak (sector : ℕ) : Block := cipher.encryptBlock key2 (tweakInput (UInt64.ofNat sector))

/-- Byte `i` of what the loop makes of a buffer. -/
def headerByte (data : List UInt8) (i : ℕ) : UInt8 :=
  (decryptUnder cipher key1
    (gfMulAlpha^[i % 512 / 16] (startTweak cipher key2 (i / 512)))
    (blockAt data (i / 16 * 16))).get (Fin.ofNat 16 i)

/-- A byte of a sector as a byte of the buffer. -/
theorem sectorByte_segment (data : List UInt8) (sector : ℕ) {i : ℕ} (hi : i < 512) :
    sectorByte cipher key1 (startTweak cipher key2 sector) (Lib.segment data (sector * 512) 512) i =
      headerByte cipher key1 key2 data (sector * 512 + i) := by
  have hindex : Fin.ofNat 16 (sector * 512 + i) = Fin.ofNat 16 i := by
    apply Fin.ext
    show (sector * 512 + i) % 16 = i % 16
    omega
  have hsector : (sector * 512 + i) / 512 = sector := by omega
  have hmod : (sector * 512 + i) % 512 = i := by omega
  have hblock : blockAt (Lib.segment data (sector * 512) 512) (i / 16 * 16) =
      blockAt data ((sector * 512 + i) / 16 * 16) := by
    apply blockAt_congr
    intro j hj
    rw [getElem?_segment, if_pos (by omega)]
    congr 1
    omega
  unfold sectorByte headerByte
  rw [hindex, hsector, hmod, hblock]

/-- Decrypting a sector changes no block of another. -/
theorem headerByte_congr {data data' : List UInt8} {i : ℕ}
    (h : ∀ j < 16, data'[i / 16 * 16 + j]? = data[i / 16 * 16 + j]?) :
    headerByte cipher key1 key2 data' i = headerByte cipher key1 key2 data i := by
  unfold headerByte
  rw [blockAt_congr h]

/-- A complete sector, decrypted. -/
theorem xtsDecryptSector_getElem? (data : List UInt8) (sector : ℕ)
    (h : sector * 512 + 512 ≤ data.length) :
    (xtsDecryptSector cipher key1 key2 (UInt64.ofNat sector)
      (Lib.segment data (sector * 512) 512)).length = 512 ∧
    ∀ i < 512, (xtsDecryptSector cipher key1 key2 (UInt64.ofNat sector)
      (Lib.segment data (sector * 512) 512))[i]? =
        some (headerByte cipher key1 key2 data (sector * 512 + i)) := by
  have hlen : (Lib.segment data (sector * 512) 512).length = 512 := length_segment h
  have hwhole : 16 * (512 / 16) ≤ (Lib.segment data (sector * 512) 512).length := by omega
  unfold xtsDecryptSector
  rw [hlen]
  constructor
  · rw [length_decryptChunks cipher key1 _ _ _ hwhole, hlen]
  · intro i hi
    rw [decryptChunks_getElem? cipher key1 _ _ _ hwhole, if_pos (by omega)]
    exact congrArg some (sectorByte_segment cipher key1 key2 data sector hi)

/-- The first sector is decrypted when it is there, and the others after it. -/
theorem xtsDecryptSectors_cons (sector : ℕ) (sectors : List ℕ) (data : List UInt8) :
    xtsDecryptSectors cipher key1 key2 (sector :: sectors) data =
      if data.length < sector * 512 + 512 then data
      else xtsDecryptSectors cipher key1 key2 sectors (patch data (sector * 512)
        (xtsDecryptSector cipher key1 key2 (UInt64.ofNat sector)
          (Lib.segment data (sector * 512) 512))) := rfl

set_option maxRecDepth 2000 in
/-- By induction on the number of sectors. -/
theorem xtsDecryptSectors_getElem? (n sector : ℕ) (data : List UInt8) (i : ℕ) :
    (xtsDecryptSectors cipher key1 key2 (List.range' sector n) data)[i]? =
      if sector * 512 ≤ i ∧ i < min (sector + n) (data.length / 512) * 512 then
        some (headerByte cipher key1 key2 data i)
      else data[i]? := by
  induction n generalizing sector data i with
  | zero =>
      rw [if_neg (by omega)]
      rfl
  | succ n ih =>
      rw [List.range'_succ, xtsDecryptSectors_cons]
      split
      · next hshort => rw [if_neg (by omega)]
      · next hcomplete =>
          have hroom : sector * 512 + 512 ≤ data.length := Nat.not_lt.mp hcomplete
          obtain ⟨hlen, hsector⟩ := xtsDecryptSector_getElem? cipher key1 key2 data sector hroom
          generalize xtsDecryptSector cipher key1 key2 (UInt64.ofNat sector)
            (Lib.segment data (sector * 512) 512) = decrypted at hlen hsector
          have hfit : sector * 512 + decrypted.length ≤ data.length := by
            rw [hlen]
            exact hroom
          have hpatched := length_patch hfit
          have hget (k : ℕ) : (patch data (sector * 512) decrypted)[k]? =
              if k < sector * 512 then data[k]?
              else if k < sector * 512 + 512 then decrypted[k - sector * 512]? else data[k]? := by
            rw [getElem?_patch _ (by omega), hlen]
          rw [ih, hpatched]
          by_cases hlater : (sector + 1) * 512 ≤ i ∧
              i < min (sector + 1 + n) (data.length / 512) * 512
          · rw [if_pos hlater, if_pos (by omega)]
            apply congrArg some
            apply headerByte_congr
            intro j _
            rw [hget, if_neg (by omega), if_neg (by omega)]
          · rw [if_neg hlater, hget]
            by_cases hbefore : i < sector * 512
            · rw [if_pos hbefore, if_neg (by omega)]
            · rw [if_neg hbefore]
              by_cases hinside : i < sector * 512 + 512
              · have hindex : sector * 512 + (i - sector * 512) = i := by omega
                rw [if_pos hinside, if_pos (by omega), hsector _ (by omega), hindex]
              · rw [if_neg hinside, if_neg (by omega)]

end Header

/-- **What header decryption leaves at each position.** -/
theorem xtsDecryptHeader_getElem? (cipher : BlockCipher) (headerKey : Vector UInt8 32)
    (data : List UInt8) (i : ℕ) :
    (xtsDecryptHeader cipher headerKey data)[i]? =
      if i < encryptedLength data.length then
        some (headerByte cipher (cipherKey headerKey) (tweakKey headerKey) data i)
      else data[i]? := by
  unfold xtsDecryptHeader encryptedLength
  rw [xtsDecryptSectors_getElem?, Nat.zero_add, Nat.zero_mul]
  simp only [Nat.zero_le, true_and]

/-! ## Encryption and decryption -/

/-- The code's sector number is the little-endian block of it. -/
theorem tweakInput_eq {sector : ℕ} (h : sector < 6) :
    tweakInput (UInt64.ofNat sector) = leBlock sector := by
  interval_cases sector <;> rfl

/-- The tweaks of a sector are the powers of α. -/
theorem tweak_eq (cipher : BlockCipher) (key2 : Key) {sector : ℕ} (h : sector < 6) (j : ℕ) :
    gfMulAlpha^[j] (startTweak cipher key2 sector) = tweak cipher key2 sector j := by
  induction j with
  | zero =>
      unfold startTweak
      rw [tweakInput_eq h]
      rfl
  | succ j ih =>
      rw [Function.iterate_succ_apply', ih, gfMulAlpha_eq]
      rfl

section Inverse

variable (cipher : BlockCipher) (headerKey : Vector UInt8 32) (plain : List UInt8)

/-- Encrypting a header keeps its length. -/
theorem length_xtsEncryptHeader :
    (xtsEncryptHeader cipher headerKey plain).length = plain.length := List.length_mapIdx

omit cipher headerKey plain in
/-- The whole sectors of a header, six at most, are encrypted. -/
theorem encryptedLength_eq (n : ℕ) : encryptedLength n = min 6 (n / 512) * 512 := rfl

/-- Each byte of an encrypted header is that of its block under the block's tweak. -/
theorem xtsEncryptHeader_getElem? (i : ℕ) :
    (xtsEncryptHeader cipher headerKey plain)[i]? =
      if i < encryptedLength plain.length then
        some ((encryptUnder cipher (cipherKey headerKey)
          (tweak cipher (tweakKey headerKey) (i / 512) (i % 512 / 16))
          (blockAt plain (i / 16 * 16))).get (Fin.ofNat 16 i))
      else plain[i]? := by
  unfold xtsEncryptHeader
  rw [List.getElem?_mapIdx, blockAt_eq]
  by_cases hi : i < encryptedLength plain.length
  · have hlen : i < plain.length := by
      rw [encryptedLength_eq] at hi
      omega
    rw [List.getElem?_eq_getElem hlen, if_pos hi]
    exact congrArg some (if_pos hi)
  · rw [if_neg hi]
    simp only [if_neg hi, Option.map_id']

/-- A block of the image is the encryption of the block. -/
theorem blockAt_xtsEncryptHeader {i : ℕ} (hi : i < encryptedLength plain.length) :
    blockAt (xtsEncryptHeader cipher headerKey plain) (i / 16 * 16) =
      encryptUnder cipher (cipherKey headerKey)
        (tweak cipher (tweakKey headerKey) (i / 512) (i % 512 / 16))
        (blockAt plain (i / 16 * 16)) := by
  apply ext_get
  intro j
  have hj := j.isLt
  have hin : i / 16 * 16 + j.val < encryptedLength plain.length := by
    rw [encryptedLength_eq] at hi ⊢
    omega
  have hsector : (i / 16 * 16 + j.val) / 512 = i / 512 := by omega
  have hblock : (i / 16 * 16 + j.val) % 512 / 16 = i % 512 / 16 := by omega
  have hstart : (i / 16 * 16 + j.val) / 16 * 16 = i / 16 * 16 := by omega
  have hindex : Fin.ofNat 16 (i / 16 * 16 + j.val) = j := by
    apply Fin.ext
    show (i / 16 * 16 + j.val) % 16 = j.val
    omega
  rw [blockAt_get, List.getD_eq_getElem?_getD, xtsEncryptHeader_getElem?, if_pos hin, hsector,
    hblock, hstart, hindex]
  rfl

/-- A header that was encrypted is decrypted, under a cipher that inverts. -/
theorem decrypt_encrypt
    (hcipher : ∀ k b, cipher.decryptBlock k (cipher.encryptBlock k b) = b) :
    xtsDecryptHeader cipher headerKey (xtsEncryptHeader cipher headerKey plain) = plain := by
  apply List.ext_getElem?
  intro i
  rw [xtsDecryptHeader_getElem?, length_xtsEncryptHeader]
  by_cases hi : i < encryptedLength plain.length
  · have hlen : i < plain.length ∧ i / 512 < 6 := by
      rw [encryptedLength_eq] at hi
      omega
    have hindex : i / 16 * 16 + (Fin.ofNat 16 i).val = i := by
      show i / 16 * 16 + i % 16 = i
      omega
    rw [if_pos hi]
    unfold headerByte
    rw [blockAt_xtsEncryptHeader cipher headerKey plain hi, tweak_eq cipher _ hlen.2,
      decrypt_encryptUnder hcipher, blockAt_get, hindex, List.getD_eq_getElem?_getD,
      List.getElem?_eq_getElem hlen.1]
    rfl
  · rw [if_neg hi, xtsEncryptHeader_getElem?, if_neg hi]

end Inverse

/-- A decrypted block depends on the block alone. -/
theorem blockAt_xtsDecryptHeader (cipher : BlockCipher) (headerKey : Vector UInt8 32)
    {data data' : List UInt8} {n : ℕ} (hin : n * 16 < encryptedLength data.length)
    (hin' : n * 16 < encryptedLength data'.length)
    (h : blockAt data (n * 16) = blockAt data' (n * 16)) :
    blockAt (xtsDecryptHeader cipher headerKey data) (n * 16) =
      blockAt (xtsDecryptHeader cipher headerKey data') (n * 16) := by
  apply blockAt_congr
  intro j hj
  have hstart : (n * 16 + j) / 16 * 16 = n * 16 := by omega
  rw [xtsDecryptHeader_getElem?, xtsDecryptHeader_getElem?,
    if_pos (by rw [encryptedLength_eq] at hin ⊢; omega),
    if_pos (by rw [encryptedLength_eq] at hin' ⊢; omega)]
  unfold headerByte
  rw [hstart, h]

/-- A cipher that adds the key. -/
def addingCipher : BlockCipher where
  encryptBlock := fun k b => Vector.ofFn fun j => b.get j + k.get j
  decryptBlock := fun k b => Vector.ofFn fun j => b.get j - k.get j

end Oboromi.Analysis
