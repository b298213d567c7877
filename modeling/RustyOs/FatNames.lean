import RustyOs.FatRoundTrip

/-!
File names and the name field of a directory entry.

`create_dir_entry` splits a name at its dots and copies the first part, cut to 8 bytes, and the
second, cut to 3, each filled up with blanks; what else the name has is lost. `get_name` joins
the two parts again.
-/

namespace RustyOs.FatNames

open RustyOs.Chunks RustyOs.Fat32 RustyOs.FatRoundTrip

/-! ### The name field -/

variable {name name' base ext base' ext' : List UInt8}

def baseName (name : List UInt8) : List UInt8 := (name.splitOn 0x2E).getD 0 []

def extension (name : List UInt8) : List UInt8 := (name.splitOn 0x2E).getD 1 []

lemma ofFn_encodedName (name : List UInt8) : List.ofFn (encodedName name) =
    List.ofFn (fill 0x20 (baseName name) : Fin 8 → UInt8) ++
      List.ofFn (fill 0x20 (extension name) : Fin 3 → UInt8) := by
  apply List.ext_getElem
  · rw [List.length_append, List.length_ofFn, List.length_ofFn, List.length_ofFn]
  · intro i h1 h2
    rw [List.length_ofFn] at h1
    rw [List.getElem_ofFn]
    rcases Nat.lt_or_ge i 8 with hi | hi
    · rw [List.getElem_append_left (by rwa [List.length_ofFn]), List.getElem_ofFn]
      exact if_pos hi
    · have hlen : (List.ofFn (fill 0x20 (baseName name) : Fin 8 → UInt8)).length ≤ i := by
        rwa [List.length_ofFn]
      rw [List.getElem_append_right hlen, List.getElem_ofFn]
      refine (if_neg (Nat.not_lt.mpr hi)).trans ((if_pos h1).trans ?_)
      simp only [fill, List.length_ofFn]
      rfl

/-- What the field keeps of a name. -/
def shortForm (name : List UInt8) : List UInt8 × List UInt8 :=
  (kept 8 0x20 (baseName name), kept 3 0x20 (extension name))

lemma encodedName_eq_iff : encodedName name = encodedName name' ↔
    shortForm name = shortForm name' := by
  rw [shortForm, shortForm, Prod.mk.injEq, ← fill_eq_fill_iff, ← fill_eq_fill_iff,
    ← List.ofFn_injective.eq_iff (a := encodedName name), ofFn_encodedName, ofFn_encodedName]
  constructor
  · intro h
    obtain ⟨hb, he⟩ := List.append_inj h (by simp)
    exact ⟨List.ofFn_injective hb, List.ofFn_injective he⟩
  · rintro ⟨hb, he⟩
    rw [hb, he]

/-- A name in two parts that fit, with no blank at the end of either. -/
structure EightThree (base ext : List UInt8) : Prop where
  base_length : base.length ≤ 8
  ext_length : ext.length ≤ 3
  base_dot : 0x2E ∉ base
  ext_dot : 0x2E ∉ ext
  base_blank : ∀ b ∈ base.getLast?, b ≠ 0x20
  ext_blank : ∀ b ∈ ext.getLast?, b ≠ 0x20

lemma splitOn_pair (hb : 0x2E ∉ base) (he : 0x2E ∉ ext) :
    (base ++ 0x2E :: ext).splitOn 0x2E = [base, ext] := by
  have hne : ∀ l : List UInt8, 0x2E ∉ l → ∀ x ∈ l, (x == 0x2E) = false :=
    fun l hl x hx => beq_eq_false_iff_ne.mpr fun h => hl (h ▸ hx)
  rw [List.splitOn, List.splitOnP_append_cons _ _ (by simp),
    List.splitOnP_eq_singleton (hne base hb), List.splitOnP_eq_singleton (hne ext he)]
  rfl

lemma shortForm_pair (h : EightThree base ext) : shortForm (base ++ 0x2E :: ext) = (base, ext) := by
  rw [shortForm, baseName, extension, splitOn_pair h.base_dot h.ext_dot]
  exact Prod.ext (kept_of_length_le h.base_length h.base_blank)
    (kept_of_length_le h.ext_length h.ext_blank)

lemma nameOk_iff : NameOk name ↔ ∀ b ∈ name.head?, b ≠ 0x00 ∧ b ≠ 0xE5 := by
  refine ⟨fun h => ?_, nameOk_of_head⟩
  have hfirst : encodedName name 0 ≠ 0x00 ∧ encodedName name 0 ≠ 0xE5 := of_decide_eq_true h
  intro b hb
  by_cases hdot : b = 0x2E
  · rw [hdot]
    decide
  · have hzero : encodedName name 0 = b := by
      cases name with
      | nil => cases hb
      | cons a name =>
        obtain rfl : a = b := Option.some.inj hb
        change (((a :: name).splitOnP (· == 0x2E)).getD 0 []).getD 0 0x20 = a
        obtain ⟨l, ls, hl⟩ :=
          List.exists_cons_of_ne_nil (List.splitOnP_ne_nil (· == 0x2E) name)
        rw [List.splitOnP_cons_eq_if_modifyHead, if_neg (by simpa using hdot), hl]
        rfl
    rwa [hzero] at hfirst

/-- **Which names a directory tells apart.** Two entries have the same name field exactly if
the field keeps the same of both names, so names in two parts that fit are told apart; and an
entry is live exactly if its name does not start with the byte of an empty or a deleted
slot. -/
theorem names_told_apart_iff (name name' : List UInt8) (fc size fc' size' : UInt32) :
    ((decodeEntry (createDirEntry name fc size)).name =
        (decodeEntry (createDirEntry name' fc' size')).name ↔
      shortForm name = shortForm name') ∧
    (∀ base ext base' ext', EightThree base ext → EightThree base' ext' →
      name = base ++ 0x2E :: ext → name' = base' ++ 0x2E :: ext' → name ≠ name' →
      (decodeEntry (createDirEntry name fc size)).name ≠
        (decodeEntry (createDirEntry name' fc' size')).name) ∧
    ((decodeEntry (createDirEntry name fc size)).isValid = true ↔
      ∀ b ∈ name.head?, b ≠ 0x00 ∧ b ≠ 0xE5) := by
  rw [decode_name, decode_name]
  refine ⟨encodedName_eq_iff, ?_, ?_⟩
  · rintro base ext base' ext' h h' rfl rfl hne heq
    rw [encodedName_eq_iff, shortForm_pair h, shortForm_pair h', Prod.mk.injEq] at heq
    rw [heq.1, heq.2] at hne
    exact hne rfl
  · rw [← nameOk_iff, DirEntry.isValid, decode_name]
    rfl

/-! ### Names as strings -/

/-- The bytes of a string. -/
def nameBytes (s : String) : List UInt8 := s.toUTF8.data.toList

/-- The names `README.TXT` and `README.MD`. -/
theorem names_told_apart_iff_readme :
    (decodeEntry (createDirEntry (nameBytes "README.TXT") 3 9)).name ≠
      (decodeEntry (createDirEntry (nameBytes "README.MD") 4 9)).name := by
  apply (names_told_apart_iff (nameBytes "README.TXT") (nameBytes "README.MD") 3 9 4 9).2.1
    (nameBytes "README") (nameBytes "TXT") (nameBytes "README") (nameBytes "MD")
  · constructor <;> decide +kernel
  · constructor <;> decide +kernel
  · decide +kernel
  · decide +kernel
  · decide +kernel

/-- `A` and `A.` have one field, and an entry whose name starts with `倀` is not live. -/
theorem names_lost :
    (∃ a b : String, a ≠ b ∧ (nameBytes a).length ≤ 12 ∧ (nameBytes b).length ≤ 12 ∧
      (decodeEntry (createDirEntry (nameBytes a) 3 9)).name =
        (decodeEntry (createDirEntry (nameBytes b) 3 9)).name) ∧
    ∃ a : String, (nameBytes a).length ≤ 12 ∧
      (decodeEntry (createDirEntry (nameBytes a) 3 9)).isValid = false := by
  constructor
  · refine ⟨"A", "A.", by decide, by decide +kernel, by decide +kernel, ?_⟩
    rw [decode_name, decode_name, encodedName_eq_iff]
    decide +kernel
  · exact ⟨"倀", by decide +kernel, by decide +kernel⟩

/-- A character of a name that is copied as it is. -/
structure Plain (c : Char) : Prop where
  ascii : c.toNat < 128
  dot : c ≠ '.'
  blank : c ≠ ' '
  nul : c.toNat ≠ 0

def asciiByte (c : Char) : UInt8 := UInt8.ofNat c.toNat

variable {c : Char} {cs : List Char}

lemma toNat_asciiByte (h : c.toNat < 128) : (asciiByte c).toNat = c.toNat :=
  UInt8.toNat_ofNat_of_lt' (show c.toNat < 256 by omega)

lemma ofUInt8_asciiByte (h : c.toNat < 128) : Char.ofUInt8 (asciiByte c) = c := by
  apply Char.ext
  apply UInt32.toNat_inj.mp
  change (asciiByte c).toUInt32.toNat = c.toNat
  rw [UInt8.toNat_toUInt32, toNat_asciiByte h]

lemma asciiByte_inj {c' : Char} (h : c.toNat < 128) (h' : c'.toNat < 128)
    (heq : asciiByte c = asciiByte c') : c = c' := by
  rw [← ofUInt8_asciiByte h, heq, ofUInt8_asciiByte h']

lemma nameBytes_ascii (s : String) (h : ∀ c ∈ s.toList, c.toNat < 128) :
    nameBytes s = s.toList.map asciiByte := by
  have hutf8 : nameBytes s = s.toList.flatMap String.utf8EncodeChar := by
    have h := String.toByteArray_ofList (l := s.toList)
    rw [String.ofList_toList] at h
    rw [nameBytes, String.toUTF8, h, List.utf8Encode]
    simp
  have hchar : ∀ c ∈ s.toList, String.utf8EncodeChar c = [asciiByte c] := by
    intro c hc
    exact if_pos (Nat.le_of_lt_succ (h c hc))
  rw [hutf8, List.flatMap_congr hchar, List.map_eq_flatMap]

lemma Plain.not_padding (h : Plain c) : asciiByte c ≠ 0x20 ∧ asciiByte c ≠ 0 := by
  constructor
  · exact fun heq => h.blank (asciiByte_inj h.ascii (by decide) heq)
  · intro heq
    have := toNat_asciiByte h.ascii
    rw [heq] at this
    exact h.nul this.symm

lemma shownChars_fill {n : ℕ} (h : ∀ c ∈ cs, Plain c) (hlen : cs.length ≤ n) :
    DirEntry.shownChars (List.ofFn (fill 0x20 (cs.map asciiByte) : Fin n → UInt8)) = cs := by
  have hkeep : (cs.map asciiByte).filter (fun b => decide (b ≠ 0x20 ∧ b ≠ 0)) =
      cs.map asciiByte := by
    rw [List.filter_eq_self]
    intro b hb
    obtain ⟨c, hc, rfl⟩ := List.mem_map.mp hb
    exact decide_eq_true (h c hc).not_padding
  have hback : (cs.map asciiByte).map Char.ofUInt8 = cs := by
    rw [List.map_map]
    exact (List.map_congr_left fun c hc => ofUInt8_asciiByte (h c hc).ascii).trans
      (List.map_id cs)
  rw [ofFn_fill 0x20 (by simpa using hlen), DirEntry.shownChars, List.filter_append, hkeep,
    List.filter_replicate_of_neg (by decide), List.append_nil, hback]

lemma decode_isDirectory (name : List UInt8) (fc size : UInt32) :
    (decodeEntry (createDirEntry name fc size)).isDirectory = false := by
  change decide ((0x20 : UInt8) &&& 0x10 ≠ 0) = false
  decide

lemma not_dot_mem (h : ∀ c ∈ cs, Plain c) : 0x2E ∉ cs.map asciiByte := by
  intro hmem
  obtain ⟨c, hc, heq⟩ := List.mem_map.mp hmem
  exact (h c hc).dot (asciiByte_inj (h c hc).ascii (by decide) heq)

lemma nameBytes_dotted {base ext : String} (hb : ∀ c ∈ base.toList, c.toNat < 128)
    (he : ∀ c ∈ ext.toList, c.toNat < 128) : nameBytes (base ++ "." ++ ext) =
      base.toList.map asciiByte ++ 0x2E :: ext.toList.map asciiByte := by
  have hlist : (base ++ "." ++ ext).toList = base.toList ++ '.' :: ext.toList := by simp
  rw [nameBytes_ascii, hlist, List.map_append, List.map_cons]
  · rfl
  · rw [hlist]
    intro c hc
    rcases List.mem_append.mp hc with hc | hc
    · exact hb c hc
    · rcases List.mem_cons.mp hc with rfl | hc
      · decide
      · exact he c hc

/-- **Decoding undoes encoding.** The entry of a name in two plain parts, put into any slot of
any sector, decodes to a valid entry of a file with its first cluster, size and name. -/
theorem decode_encode {base ext : String} (hbase : 1 ≤ base.length ∧ base.length ≤ 8)
    (hext : ext.length ≤ 3) (hplain : ∀ c ∈ base.toList ++ ext.toList, Plain c)
    (fc size : UInt32) (s : Sector) (k : Fin 16) :
    ∃ e, e = decodeEntry
        (slot (putSlot s k (createDirEntry (nameBytes (base ++ "." ++ ext)) fc size)) k) ∧
      e.isValid = true ∧ e.isDirectory = false ∧ e.firstCluster = fc ∧ e.fileSize = size ∧
      e.getName = base ++ "." ++ ext := by
  have hb : ∀ c ∈ base.toList, Plain c := fun c hc => hplain c (List.mem_append_left _ hc)
  have he : ∀ c ∈ ext.toList, Plain c := fun c hc => hplain c (List.mem_append_right _ hc)
  have hname : nameBytes (base ++ "." ++ ext) =
      base.toList.map asciiByte ++ 0x2E :: ext.toList.map asciiByte :=
    nameBytes_dotted (fun c hc => (hb c hc).ascii) fun c hc => (he c hc).ascii
  have hsplit := splitOn_pair (not_dot_mem hb) (not_dot_mem he)
  refine ⟨_, rfl, ?_⟩
  rw [slot_putSlot_self, hname]
  refine ⟨decode_isValid (nameOk_iff.mpr ?_) fc size, decode_isDirectory _ fc size,
    decode_firstCluster _ fc size, decode_fileSize _ fc size, ?_⟩
  · -- the name starts with the first character of its base
    intro b hbyte
    obtain ⟨c, cs, hcs⟩ := List.exists_cons_of_length_pos
      (show 0 < base.toList.length by rw [String.length_toList]; exact hbase.1)
    have hc : Plain c := hb c (by rw [hcs]; exact List.mem_cons_self)
    rw [hcs] at hbyte
    obtain rfl : asciiByte c = b := Option.some.inj hbyte
    refine ⟨hc.not_padding.2, fun heq => ?_⟩
    have hlt := toNat_asciiByte hc.ascii
    rw [heq] at hlt
    have := hc.ascii
    change 0xE5 = c.toNat at hlt
    omega
  · rw [DirEntry.getName, decode_name, ofFn_encodedName, baseName, extension, hsplit,
      List.take_left' (by simp), List.drop_left' (by simp)]
    change String.ofList (DirEntry.shownChars
        (List.ofFn (fill 0x20 (base.toList.map asciiByte) : Fin 8 → UInt8)) ++
      '.' :: DirEntry.shownChars
        (List.ofFn (fill 0x20 (ext.toList.map asciiByte) : Fin 3 → UInt8))) = _
    rw [shownChars_fill hb (by rw [String.length_toList]; exact hbase.2),
      shownChars_fill he (by rw [String.length_toList]; exact hext)]
    apply String.toList_inj.mp
    simp

theorem decode_encode_readme : ∃ e, e = decodeEntry
      (slot (putSlot (fun _ => 0) 5
        (createDirEntry (nameBytes ("README" ++ "." ++ "MD")) 0x12345 77)) 5) ∧
    e.isValid = true ∧ e.isDirectory = false ∧ e.firstCluster = 0x12345 ∧ e.fileSize = 77 ∧
    e.getName = "README" ++ "." ++ "MD" := by
  refine decode_encode ⟨by decide, by decide⟩ (by decide) (fun c hc => ?_) 0x12345 77 _ 5
  have hc' : c ∈ ['R', 'E', 'A', 'D', 'M', 'E', 'M', 'D'] := hc
  simp only [List.mem_cons, List.not_mem_nil, or_false] at hc'
  rcases hc' with rfl | rfl | rfl | rfl | rfl | rfl | rfl | rfl <;> constructor <;> decide

end RustyOs.FatNames
