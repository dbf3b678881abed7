import Oboromi.Lib.FixedArray
import Oboromi.Lib.Segment
import Oboromi.Model.Keys

/-!
# XTS decryption of NCA headers

The header is decrypted sector by sector, in place, and a sector block by block: the tweak
starts as the encrypted sector number and is multiplied by α after every block.  The block
cipher is the host's.
-/

set_option autoImplicit false

namespace Oboromi.Model

open Oboromi.Lib

/-- A 16-byte block. -/
abbrev Block := Vector UInt8 16

/-- A block has a position. -/
instance blockNonempty : NeZero 16 := ⟨by decide⟩

/-- AES-128: any pair of functions of key and block. -/
structure BlockCipher where
  encryptBlock : Key → Block → Block
  decryptBlock : Key → Block → Block

namespace Xts

/-- SOURCE: core/src/fs/nca.rs:11 -/
abbrev SECTOR_SIZE : ℕ := 0x200

/-- Multiply a GF(2^128) element (little-endian byte order) by α.
SOURCE: core/src/fs/nca.rs:321-332 -/
def gfMulAlpha (t : Block) : Block :=
  let carry := (t.get 15 >>> 7) &&& 1
  let result := (List.finRange 15).reverse.foldl
    (fun result i => put result i.succ ((t.get i.succ <<< 1) ||| (t.get i.castSucc >>> 7)))
    (Vector.replicate 16 0)
  let result := put result 0 (t.get 0 <<< 1)
  if carry ≠ 0 then put result 0 (result.get 0 ^^^ 0x87) else result

/-- The block at a position of a buffer. -/
def blockAt (data : List UInt8) (o : ℕ) : Block := Vector.ofFn fun j => data.getD (o + j.val) 0

def xorBlock (a b : Block) : Block := Vector.ofFn fun j => a.get j ^^^ b.get j

/-- The sector number as a little-endian block.
SOURCE: core/src/fs/nca.rs:295-296 -/
def tweakInput (sectorIndex : UInt64) : Block :=
  Vector.ofFn fun i =>
    if i.val < 8 then (sectorIndex >>> UInt64.ofNat (8 * i.val)).toUInt8 else 0

/-- The loop over the chunks of a sector: `n` whole ones, and a rest that is left alone.
SOURCE: core/src/fs/nca.rs:300-317 -/
def decryptChunks (cipher : BlockCipher) (key1 : Key) : ℕ → Block → List UInt8 → List UInt8
  | 0, _, data => data
  | n + 1, t, data =>
    -- PP = chunk XOR T
    let block := xorBlock (blockAt data 0) t
    let block := cipher.decryptBlock key1 block
    -- chunk = block XOR T
    (xorBlock block t).toList ++ decryptChunks cipher key1 n (gfMulAlpha t) (data.drop 16)

/-- XTS-AES-128 decryption of a single sector.
SOURCE: core/src/fs/nca.rs:290-318 -/
def xtsDecryptSector (cipher : BlockCipher) (key1 key2 : Key) (sectorIndex : UInt64)
    (data : List UInt8) : List UInt8 :=
  let t := cipher.encryptBlock key2 (tweakInput sectorIndex)
  decryptChunks cipher key1 (data.length / 16) t data

/-- The loop over the sectors, which stops at the first one that is not complete.
SOURCE: core/src/fs/nca.rs:281-286 -/
def xtsDecryptSectors (cipher : BlockCipher) (key1 key2 : Key) :
    List ℕ → List UInt8 → List UInt8
  | [], data => data
  | sector :: sectors, data =>
    let start := sector * SECTOR_SIZE
    let stop := start + SECTOR_SIZE
    if data.length < stop then data
    else
      let decrypted := xtsDecryptSector cipher key1 key2 (UInt64.ofNat sector)
        (segment data start SECTOR_SIZE)
      xtsDecryptSectors cipher key1 key2 sectors (patch data start decrypted)

/-- The halves of a header key: the cipher key and the tweak key.
SOURCE: core/src/fs/nca.rs:278-279 -/
def cipherKey (headerKey : Vector UInt8 32) : Key :=
  Vector.ofFn fun i => headerKey.get (Fin.castAdd 16 i)

def tweakKey (headerKey : Vector UInt8 32) : Key :=
  Vector.ofFn fun i => headerKey.get (Fin.natAdd 16 i)

/-- Decrypt the NCA header using AES-128-XTS.
SOURCE: core/src/fs/nca.rs:277-287 -/
def xtsDecryptHeader (cipher : BlockCipher) (headerKey : Vector UInt8 32)
    (data : List UInt8) : List UInt8 :=
  xtsDecryptSectors cipher (cipherKey headerKey) (tweakKey headerKey) (List.range' 0 6) data

end Xts

end Oboromi.Model
