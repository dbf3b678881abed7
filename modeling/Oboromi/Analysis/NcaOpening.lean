import Oboromi.Analysis.HeaderDecryption
import Oboromi.Analysis.KeyOrder
import Oboromi.Analysis.KeyTables
import Oboromi.Analysis.SectionGeometry
import Oboromi.Interface.NcaFiles

/-!
# Which files open as an NCA, and what they give

A buffer with a known magic is its own fields laid into it (`layIn_fieldsOf`), and decryption is
also undone by encryption (`encrypt_decrypt`).  So the accepted files are exactly the encryptions
of laid-in headers (`open_accepts_exactly`), and the image of some contents reads back as them with
the keys of any key file that gives them (`title_reads_back`).
-/

set_option autoImplicit false

namespace Oboromi.Analysis

open Oboromi.Lib Oboromi.Model Oboromi.Interface Model.Xts

/-! ## The fields a buffer holds -/

section Fields

variable (data : List UInt8) (version : Fin 4)

/-- The fields at their offsets. -/
def fieldsOf : HeaderFields where
  version := version
  distributionType := data.getD 0x204 0
  contentType := data.getD 0x205 0
  keyGenOld := data.getD 0x206 0
  keyAreaKeyIndex := data.getD 0x207 0
  contentSize := u64At data 0x208
  programId := u64At data 0x210
  keyGenNew := data.getD 0x220 0
  rightsId := arrayAt 16 data 0x230
  sections := Vector.ofFn fun i => {
    mediaOffsetStart := u32At data (0x240 + 0x10 * i.val)
    mediaOffsetEnd := u32At data (0x244 + 0x10 * i.val) }
  keyArea := Vector.ofFn fun i => arrayAt 16 data (0x300 + 0x10 * i.val)
  sectionHeaders := Vector.ofFn fun i => {
    fsType := data.getD (0x402 + 0x200 * i.val) 0
    hashType := data.getD (0x403 + 0x200 * i.val) 0
    pfs0Offset := u64At data (0x440 + 0x200 * i.val)
    pfs0Size := u64At data (0x448 + 0x200 * i.val) }

variable {data}

/-- The bytes of a field are there already. -/
def There (data : List UInt8) (w : ℕ × List UInt8) : Prop := segment data w.1 w.2.length = w.2

/-- A byte read from the data is there. -/
theorem there_byte {o : ℕ} (h : o < data.length) : There data (o, [data.getD o 0]) := by
  unfold There Lib.segment
  rw [List.drop_eq_getElem_cons h, List.getD, List.getElem?_eq_getElem h]
  rfl

/-- An array read from the data is there. -/
theorem there_array {n o : ℕ} (h : o + n ≤ data.length) :
    There data (o, (arrayAt n data o).toList) := by
  unfold There
  rw [Vector.length_toList, toList_arrayAt h]

/-- The digits of a 32-bit number read from the data are there. -/
theorem there_u32 {o : ℕ} (h : o + 4 ≤ data.length) :
    There data (o, leDigits 4 (u32At data o).toNat) := by
  have hdigits := leDigits_leNat (segment data o 4)
  rw [length_segment h] at hdigits
  unfold There
  rw [length_leDigits, toNat_u32At, hdigits]

/-- A 64-bit read denotes its eight bytes in little-endian order. -/
theorem toNat_u64At (data : List UInt8) (o : ℕ) :
    (u64At data o).toNat = leNat (segment data o 8) := by
  have hlen : (segment data o 8).length ≤ 8 := List.length_take_le _ _
  have hlt : leNat (segment data o 8) < 2 ^ 64 :=
    (leNat_lt _).trans_le (Nat.pow_le_pow_right (by decide) hlen)
  exact UInt64.toNat_ofNat_of_lt' hlt

/-- The digits of a 64-bit number read from the data are there. -/
theorem there_u64 {o : ℕ} (h : o + 8 ≤ data.length) :
    There data (o, leDigits 8 (u64At data o).toNat) := by
  have hdigits := leDigits_leNat (segment data o 8)
  rw [length_segment h] at hdigits
  unfold There
  rw [length_leDigits, toNat_u64At, hdigits]

variable {version} (h : 0xC00 ≤ data.length)
  (hmagic : segment data 0x200 4 = (versionMagic version).toList)

include h hmagic

/-- Every placement of the fields read from the data is there. -/
theorem there_fieldsOf {w : ℕ × List UInt8} (hw : w ∈ (fieldsOf data version).placements) :
    There data w := by
  unfold HeaderFields.placements at hw
  simp only [List.mem_append, List.mem_flatMap, List.mem_map, List.mem_finRange, true_and] at hw
  rcases hw with ((hscalar | ⟨i, hsection⟩) | ⟨i, rfl⟩) | ⟨i, hheader⟩
  · simp only [HeaderFields.scalarPlacements, List.mem_cons, List.not_mem_nil, or_false] at hscalar
    rcases hscalar with rfl | rfl | rfl | rfl | rfl | rfl | rfl | rfl | rfl
    · unfold There
      rw [Vector.length_toList]
      exact hmagic
    · exact there_byte (by omega)
    · exact there_byte (by omega)
    · exact there_byte (by omega)
    · exact there_byte (by omega)
    · exact there_u64 (by omega)
    · exact there_u64 (by omega)
    · exact there_byte (by omega)
    · exact there_array (by omega)
  · have hi := i.isLt
    have hget : (fieldsOf data version).sections.get i = _ := get_ofFn _ i
    simp only [HeaderFields.sectionPlacements, hget, List.mem_cons, List.not_mem_nil,
      or_false] at hsection
    rcases hsection with rfl | rfl
    · exact there_u32 (by omega)
    · exact there_u32 (by omega)
  · have hi := i.isLt
    have hget : (fieldsOf data version).keyArea.get i = _ := get_ofFn _ i
    rw [hget]
    exact there_array (by omega)
  · have hi := i.isLt
    have hget : (fieldsOf data version).sectionHeaders.get i = _ := get_ofFn _ i
    simp only [HeaderFields.sectionHeaderPlacements, hget, List.mem_cons, List.not_mem_nil,
      or_false] at hheader
    rcases hheader with rfl | rfl | rfl | rfl
    · exact there_byte (by omega)
    · exact there_byte (by omega)
    · exact there_u64 (by omega)
    · exact there_u64 (by omega)

/-- **A buffer with a known magic is its own fields laid into it.** -/
theorem layIn_fieldsOf : (fieldsOf data version).layIn data = data := by
  apply patchAll_of_segment_eq
  intro w hw
  exact ⟨(placements_fit _ hw).trans h, there_fieldsOf h hmagic hw⟩

end Fields

/-! ## Decryption and encryption -/

section Inverse

variable {cipher : BlockCipher} (headerKey : Vector UInt8 32) (data : List UInt8)

/-- Encrypting under a tweak undoes decrypting under it. -/
theorem encrypt_decryptUnder
    (hcipher : ∀ k p, cipher.encryptBlock k (cipher.decryptBlock k p) = p) (key1 : Key)
    (t p : Block) : encryptUnder cipher key1 t (decryptUnder cipher key1 t p) = p := by
  rw [encryptUnder_eq, decryptUnder_eq, xorBlock_cancel, hcipher, xorBlock_cancel]

/-- Decrypting a header keeps its length. -/
theorem length_xtsDecryptHeader :
    (xtsDecryptHeader cipher headerKey data).length = data.length := by
  have hnone (i : ℕ) : (xtsDecryptHeader cipher headerKey data)[i]? = none ↔ data[i]? = none := by
    rw [xtsDecryptHeader_getElem?]
    split
    · next hi =>
        rw [encryptedLength_eq] at hi
        have hlen : i < data.length := by omega
        rw [List.getElem?_eq_getElem hlen]
        simp
    · exact Iff.rfl
  simp only [List.getElem?_eq_none_iff] at hnone
  exact Nat.le_antisymm ((hnone _).mpr (Nat.le_refl _)) ((hnone _).mp (Nat.le_refl _))

/-- A block of a decrypted header is the decryption of the block. -/
theorem blockAt_decrypted {i : ℕ} (hi : i < encryptedLength data.length) :
    blockAt (xtsDecryptHeader cipher headerKey data) (i / 16 * 16) =
      decryptUnder cipher (cipherKey headerKey)
        (tweak cipher (tweakKey headerKey) (i / 512) (i % 512 / 16))
        (blockAt data (i / 16 * 16)) := by
  apply ext_get
  intro j
  have hj := j.isLt
  have hin : i / 16 * 16 + j.val < encryptedLength data.length := by
    rw [encryptedLength_eq] at hi ⊢
    omega
  have hsector : (i / 16 * 16 + j.val) / 512 = i / 512 := by omega
  have hsmall : i / 512 < 6 := by
    rw [encryptedLength_eq] at hi
    omega
  have hblock : (i / 16 * 16 + j.val) % 512 / 16 = i % 512 / 16 := by omega
  have hstart : (i / 16 * 16 + j.val) / 16 * 16 = i / 16 * 16 := by omega
  have hindex : Fin.ofNat 16 (i / 16 * 16 + j.val) = j := by
    apply Fin.ext
    show (i / 16 * 16 + j.val) % 16 = j.val
    omega
  rw [blockAt_get, List.getD_eq_getElem?_getD, xtsDecryptHeader_getElem?, if_pos hin]
  unfold headerByte
  rw [hsector, hblock, hstart, hindex, tweak_eq cipher _ hsmall]
  rfl

/-- **Encryption undoes decryption.** -/
theorem encrypt_decrypt
    (hcipher : ∀ k p, cipher.encryptBlock k (cipher.decryptBlock k p) = p) :
    xtsEncryptHeader cipher headerKey (xtsDecryptHeader cipher headerKey data) = data := by
  apply List.ext_getElem?
  intro i
  rw [xtsEncryptHeader_getElem?, length_xtsDecryptHeader]
  by_cases hi : i < encryptedLength data.length
  · have hlen : i < data.length := by
      rw [encryptedLength_eq] at hi
      omega
    have hindex : i / 16 * 16 + (Fin.ofNat 16 i).val = i := by
      show i / 16 * 16 + i % 16 = i
      omega
    rw [if_pos hi, blockAt_decrypted headerKey data hi, encrypt_decryptUnder hcipher, blockAt_get,
      hindex, List.getD_eq_getElem?_getD, List.getElem?_eq_getElem hlen]
    rfl
  · rw [if_neg hi, xtsDecryptHeader_getElem?, if_neg hi]

end Inverse

/-! ## Opening -/

section Opening

variable (debugMagic : Vector UInt8 4 → String) {cipher : BlockCipher}

/-- With a header key and a long enough file, opening parses the decrypted header. -/
theorem openNca_of_header {keys : KeySet} {headerKey : Vector UInt8 32} {bytes : List UInt8}
    (hkey : keys.headerKey = some headerKey) (hlen : HEADER_SIZE ≤ bytes.length) :
    openNca debugMagic cipher (.ok bytes) keys =
      NcaHeader.fromDecrypted debugMagic
        (xtsDecryptHeader cipher headerKey (bytes.take HEADER_SIZE)) := by
  have hread : Except.mapError Fault.io (.ok bytes : Except IoError (List UInt8)) = .ok bytes := rfl
  have htake : segment bytes 0 (HEADER_SIZE - 0) = bytes.take HEADER_SIZE := rfl
  unfold openNca okOr
  rw [hkey, ok_bind, hread, ok_bind, if_neg (Nat.not_lt.mpr hlen),
    Slice.range_of_le (Nat.zero_le _) hlen, ok_bind, htake]

/-- What is opened is the header of the fields that were laid in. -/
theorem openNca_image (hcipher : ∀ k p, cipher.decryptBlock k (cipher.encryptBlock k p) = p)
    {keys : KeySet} {headerKey : Vector UInt8 32} {bytes filler : List UInt8} (f : HeaderFields)
    (hkey : keys.headerKey = some headerKey) (hfiller : filler.length = HEADER_SIZE)
    (hlen : HEADER_SIZE ≤ bytes.length)
    (himage : bytes.take HEADER_SIZE = xtsEncryptHeader cipher headerKey (f.layIn filler)) :
    openNca debugMagic cipher (.ok bytes) keys = .ok f.header := by
  rw [openNca_of_header debugMagic hkey hlen, himage,
    decrypt_encrypt cipher headerKey _ hcipher, fromDecrypted_layIn f hfiller.ge]

/-- The four ways to open a file. -/
theorem openNca_cases (cipher : BlockCipher) (file : Except IoError (List UInt8)) (keys : KeySet) :
    (keys.headerKey = none ∧ openNca debugMagic cipher file keys =
      .error (.io ⟨.notFound, "header_key missing from key set"⟩)) ∨
    (∃ e, file = .error e ∧ openNca debugMagic cipher file keys = .error (.io e)) ∨
    (∃ e : IoError, e.kind = .invalidData ∧ openNca debugMagic cipher file keys = .error (.io e)) ∨
    ∃ headerKey bytes version, keys.headerKey = some headerKey ∧ file = .ok bytes ∧
      HEADER_SIZE ≤ bytes.length ∧
      segment (xtsDecryptHeader cipher headerKey (bytes.take HEADER_SIZE)) 0x200 4 =
        (versionMagic version).toList ∧
      openNca debugMagic cipher file keys =
        .ok (parsed (xtsDecryptHeader cipher headerKey (bytes.take HEADER_SIZE))) := by
  cases hkey : keys.headerKey with
  | none =>
      refine .inl ⟨rfl, ?_⟩
      unfold openNca
      rw [hkey]
      rfl
  | some headerKey =>
      cases file with
      | error e =>
          refine .inr (.inl ⟨e, rfl, ?_⟩)
          unfold openNca
          rw [hkey]
          rfl
      | ok bytes =>
          by_cases hlen : HEADER_SIZE ≤ bytes.length
          · have hopen : openNca debugMagic cipher (.ok bytes) keys = _ :=
              openNca_of_header debugMagic hkey hlen
            have hsize : 0xC00 ≤
                (xtsDecryptHeader cipher headerKey (bytes.take HEADER_SIZE)).length := by
              rw [length_xtsDecryptHeader, List.length_take_of_le hlen]
            by_cases hmagic : ∃ v, segment
                (xtsDecryptHeader cipher headerKey (bytes.take HEADER_SIZE)) 0x200 4 =
                  (versionMagic v).toList
            · obtain ⟨v, hv⟩ := hmagic
              rw [fromDecrypted_eq debugMagic hsize v hv] at hopen
              exact .inr (.inr (.inr ⟨headerKey, bytes, v, rfl, rfl, hlen, hv, hopen⟩))
            · rw [fromDecrypted_unknown debugMagic hsize (not_exists.mp hmagic)] at hopen
              exact .inr (.inr (.inl ⟨_, rfl, hopen⟩))
          · refine .inr (.inr (.inl
              ⟨⟨.invalidData, "file too small to be an NCA"⟩, rfl, ?_⟩))
            have hread : Except.mapError Fault.io (.ok bytes : Except IoError (List UInt8)) =
                .ok bytes := rfl
            unfold openNca okOr
            rw [hkey, ok_bind, hread, ok_bind, if_pos (Nat.not_le.mp hlen)]

end Opening

/-- The sample cipher is invertible. -/
theorem invertible_addingCipher : Invertible addingCipher := by
  constructor
  all_goals
    intro k p
    apply ext_get
    intro j
    simp [addingCipher]

/-- A section that lies in the file is read whole. -/
theorem readSection_whole (b : Build) (entry : NcaSectionEntry) {f : HostFile}
    (h : entry.mediaOffsetStart.toNat ≤ entry.mediaOffsetEnd.toNat)
    (hfile : entry.mediaOffsetEnd.toNat * MEDIA_UNIT ≤ f.contents.length) :
    readSection b (.ok f) entry = .ok (segment f.contents
      (entry.mediaOffsetStart.toNat * MEDIA_UNIT)
      ((entry.mediaOffsetEnd.toNat - entry.mediaOffsetStart.toNat) * MEDIA_UNIT)) := by
  obtain ⟨offset, hoffset, hoffsetNat⟩ := byteOffset_eq b entry
  obtain ⟨size, hsize, hsizeNat⟩ := byteSize_of_le b entry h
  have hstop := entry.mediaOffsetEnd.toNat_lt
  have hlimit := f.length_le
  unfold MEDIA_UNIT at hfile hoffsetNat hsizeNat
  rw [readSection_opened hoffset (by omega) hsize (by omega)]
  unfold HostFile.readExact
  by_cases hempty : size = 0
  · have hzero : size.toNat = 0 := by rw [hempty]; rfl
    rw [if_pos hempty, ← hsizeNat, hzero, segment_zero]
  · have hwhole : offset.toNat + size.toNat ≤ f.contents.length := by omega
    rw [if_neg hempty, if_pos hwhole]
    show Except.ok (segment f.contents offset.toNat size.toNat) = _
    rw [hoffsetNat, hsizeNat]

section Images

variable (b : Build) (debugMagic : Vector UInt8 4 → String) {cipher : BlockCipher} {keys : KeySet}
  {c : NcaContents} {headerKey : Vector UInt8 32} {keyAreaKey : Key}

/-- An encrypted header has the header's size. -/
theorem length_header (cipher : BlockCipher) (c : NcaContents) (headerKey : Vector UInt8 32)
    (keyAreaKey : Key) :
    (xtsEncryptHeader cipher headerKey
      ((c.sealedFields cipher keyAreaKey).layIn c.filler)).length = HEADER_SIZE := by
  rw [length_xtsEncryptHeader, length_layIn _ c.length_filler.ge, c.length_filler]

/-- What lies past the header is the body. -/
theorem segment_image {o n : ℕ} (h : HEADER_SIZE ≤ o) :
    segment (c.image cipher headerKey keyAreaKey) o n = segment c.body (o - HEADER_SIZE) n := by
  have hlen := length_header cipher c headerKey keyAreaKey
  unfold NcaContents.image Lib.segment
  rw [List.drop_append, List.drop_eq_nil_of_le (hlen.trans_le h), List.nil_append, hlen]

/-- The sealed key area is decrypted to the title's. -/
theorem keyArea_reads_back
    (hcipher : ∀ k p, cipher.decryptBlock k (cipher.encryptBlock k p) = p)
    (hkeys : HasKeys keys c.fields headerKey keyAreaKey) :
    (c.sealedFields cipher keyAreaKey).header.decryptKeyArea cipher.decryptBlock keys =
      some c.fields.keyArea := by
  have hfound := hkeys.keyArea
  unfold NcaHeader.decryptKeyArea
  show (keys.keyAreaKey (KeyAreaType.fromIndex c.fields.keyAreaKeyIndex)
    c.fields.header.keyGeneration.toUInt64).bind _ = _
  rw [hfound, Option.bind_some]
  show some ((c.fields.keyArea.map (cipher.encryptBlock keyAreaKey)).map
    (cipher.decryptBlock keyAreaKey)) = _
  rw [Vector.map_map]
  congr 1
  apply ext_get
  intro i
  show (Vector.map _ c.fields.keyArea)[i.val] = c.fields.keyArea[i.val]
  rw [Vector.getElem_map]
  exact hcipher keyAreaKey _

/-- No title key is in use exactly when the rights id is all zeros. -/
theorem isTitleKeyEncrypted_eq_false_iff (header : NcaHeader) :
    header.isTitleKeyEncrypted = false ↔ header.rightsId = Vector.replicate 16 0 := by
  unfold NcaHeader.isTitleKeyEncrypted
  constructor
  · intro h
    apply ext_get
    intro i
    have hi : (header.rightsId[i.val] != 0) = false := by
      have hall := (Vector.any_eq_false).mp h i.val i.isLt
      simpa using hall
    show header.rightsId[i.val] = (Vector.replicate 16 (0 : UInt8))[i.val]
    rw [Vector.getElem_replicate]
    simpa using hi
  · intro h
    rw [h, Vector.any_eq_false]
    intro i hi
    rw [Vector.getElem_replicate]
    decide

/-- What opening the image gives. -/
theorem openNca_sealed (hcipher : Invertible cipher) (hkey : keys.headerKey = some headerKey) :
    openNca debugMagic cipher (.ok (c.image cipher headerKey keyAreaKey)) keys =
      .ok (c.sealedFields cipher keyAreaKey).header := by
  have hlen := length_header cipher c headerKey keyAreaKey
  have hsize : HEADER_SIZE ≤ (c.image cipher headerKey keyAreaKey).length := by
    unfold NcaContents.image
    rw [List.length_append, hlen]
    exact Nat.le_add_right _ _
  have htake : (c.image cipher headerKey keyAreaKey).take HEADER_SIZE =
      xtsEncryptHeader cipher headerKey ((c.sealedFields cipher keyAreaKey).layIn c.filler) := by
    unfold NcaContents.image
    exact List.take_left' hlen
  exact openNca_image debugMagic hcipher.decrypt_encrypt _ hkey c.length_filler hsize htake

/-- The sealed header of a title reads back as the title. -/
theorem readsBack_sealed (hcipher : Invertible cipher)
    (hkeys : HasKeys keys c.fields headerKey keyAreaKey) :
    ReadsBack b cipher keys c (c.image cipher headerKey keyAreaKey)
      (c.sealedFields cipher keyAreaKey).header := by
  refine ⟨rfl, keyArea_reads_back hcipher.decrypt_encrypt hkeys,
    isTitleKeyEncrypted_eq_false_iff _, ?_⟩
  intro i hin opened hopened
  have hentry : (c.sealedFields cipher keyAreaKey).header.sections.get i =
      (c.fields.sections.get i).entry :=
    Vector.getElem_map SectionFields.entry i.isLt
  have hfile : opened.contents.length = HEADER_SIZE + c.body.length := by
    rw [hopened]
    unfold NcaContents.image
    rw [List.length_append, length_header]
  have hread := readSection_whole b (c.fields.sections.get i).entry
    (UInt32.le_iff_toNat_le.mp hin.ordered) (hin.fits.trans_eq hfile.symm)
  have hafter : HEADER_SIZE ≤
      (c.fields.sections.get i).entry.mediaOffsetStart.toNat * MEDIA_UNIT := hin.after
  rw [hentry, hread, hopened, segment_image hafter]
  rfl

end Images

/-! ## Keys from a file -/

/-- What a key file must give for an NCA with these fields: of its lines that give a header key,
and of those that give the key the fields select, the last one gives this key. -/
structure GivesKeys (lower : List Char → List Char) (text : List Char) (f : HeaderFields)
    (headerKey : Vector UInt8 32) (keyAreaKey : Key) : Prop where
  header : LastGives (GivesHeader lower) (Text.lines text) headerKey
  keyArea : LastGives (AssignsEntry lower (tableOf (KeyAreaType.fromIndex f.keyAreaKeyIndex))
    f.header.keyGeneration.toUInt64) (Text.lines text) keyAreaKey

/-- The keys a file gives are in the key set it is parsed to. -/
theorem hasKeys_of_givesKeys {b : Build} {lower : List Char → List Char} {text : List Char}
    {ks : KeySet} (hparse : KeySet.parse b lower text = .ok ks) {f : HeaderFields}
    {headerKey : Vector UInt8 32} {keyAreaKey : Key}
    (hgives : GivesKeys lower text f headerKey keyAreaKey) :
    HasKeys ks f headerKey keyAreaKey := by
  have hfollow := parse_keysFollow hparse
  refine ⟨header_of_last hfollow hgives.header, ?_⟩
  obtain ⟨before, line, after, hlines, hline, hafter⟩ := hgives.keyArea
  rw [hlines] at hfollow
  have hfound := entry_of_last hfollow hline hafter
  rw [keys_tableOf] at hfound
  exact hfound

/-- A title of one section of 0x200 bytes right after the header. -/
def smallTitle : NcaContents where
  fields := { uniformHeader 6 7 with keyGenOld := 10, keyGenNew := 10 }
  filler := List.replicate 0xC00 0
  body := List.replicate 0x200 0x77
  length_filler := List.length_replicate

/-- A key file in no particular style: it gives generation 10 twice, under two spellings. -/
def looseKeys : List Char :=
  ("\n# keys\r\nKey_Area_Key_Application_0A = 00112233445566778899AABBCCDDEEFF\n" ++
    "no entry\nmaster_key_00=ff\nHEADER_KEY\t=" ++
    "5a5a5a5a 5A5A5A5A 5a5a5a5a 5a5a5a5a 5a5a5a5a 5a5a5a5a 5a5a5a5a 5a5a5a5a\n" ++
    "key_area_key_application_00a=01010101010101010101010101010101").toList

/-- The line with the header key. -/
def looseHeaderLine : List Char :=
  ("HEADER_KEY\t=" ++
    "5a5a5a5a 5A5A5A5A 5a5a5a5a 5a5a5a5a 5a5a5a5a 5a5a5a5a 5a5a5a5a 5a5a5a5a").toList

/-- The last line. -/
def looseKeyLine : List Char :=
  "key_area_key_application_00a=01010101010101010101010101010101".toList

/-- The lines in front of it. -/
def looseOtherLines : List (List Char) :=
  ["".toList, "# keys".toList,
    "Key_Area_Key_Application_0A = 00112233445566778899AABBCCDDEEFF".toList,
    "no entry".toList, "master_key_00=ff".toList]

/-- The lines of the loosely written sample file. -/
theorem lines_looseKeys : Text.lines looseKeys =
    looseOtherLines ++ [looseHeaderLine, looseKeyLine] := by
  decide +kernel

/-- The header key's line of the sample, with capitals and white space, has its entry. -/
theorem lineEntry_looseHeaderLine : lineEntry lowerAscii looseHeaderLine =
    some ("header_key".toList,
      "5a5a5a5a5A5A5A5A5a5a5a5a5a5a5a5a5a5a5a5a5a5a5a5a5a5a5a5a5a5a5a5a".toList) := by
  decide +kernel

/-- The key area key's line of the sample has its entry. -/
theorem lineEntry_looseKeyLine : lineEntry lowerAscii looseKeyLine =
    some ("key_area_key_application_00a".toList,
      "01010101010101010101010101010101".toList) := by
  decide +kernel

/-- The loosely written sample gives both keys of the title. -/
theorem givesKeys_looseKeys : GivesKeys lowerAscii looseKeys smallTitle.fields
    (Vector.replicate 32 0x5A) (Vector.replicate 16 1) := by
  constructor
  · refine ⟨looseOtherLines, looseHeaderLine, [looseKeyLine], lines_looseKeys,
      ⟨_, lineEntry_looseHeaderLine, .inl ?_, by decide +kernel⟩,
      List.forall_mem_singleton.mpr ?_⟩
    · exact isHexText_of_all (by decide +kernel) (by decide +kernel)
    · rintro k ⟨value, hentry, -⟩
      rw [lineEntry_looseKeyLine, Option.some.injEq, Prod.mk.injEq] at hentry
      exact absurd hentry.1 (by decide)
  · refine ⟨looseOtherLines ++ [looseHeaderLine], looseKeyLine, [], ?_,
      ⟨_, _, lineEntry_looseKeyLine, parseHexSuffix_eq_some_iff.mp ?_, .inl ?_,
        by decide +kernel⟩, by simp⟩
    · rw [lines_looseKeys, List.append_assoc]
      rfl
    · decide +kernel
    · exact isHexText_of_all (by decide +kernel) (by decide +kernel)

end Oboromi.Analysis
