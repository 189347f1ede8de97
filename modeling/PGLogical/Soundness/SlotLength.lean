import PGLogical.Soundness.SlotName

/-! # Shortened names

A name that is too long for its place is replaced by a prefix and a hash. The buffer that `shorten_hash`
formats them into is as long as the result should be, but `snprintf` needs the last byte of it for the
terminator, so the last digit of the hash is cut off. What is built from shortened names still fits.
-/

namespace PGLogical.Nodes

open Wire (Bytes CString)

/-- `snprintf` into a buffer of `size` bytes, the last of which is for the terminator. -/
def snprintf (size : ℕ) (text : Bytes) : Bytes := text.take (size - 1)

/-- Nothing of the text is cut off. -/
def FitsWhole (size : ℕ) (text : Bytes) : Prop := snprintf size text = text

theorem fitsWhole_iff {size : ℕ} {text : Bytes} : FitsWhole size text ↔ text.length ≤ size - 1 :=
  List.take_eq_self_iff text

/-! ## `shorten_hash` -/

variable (hashAny : Bytes → UInt32)

/-- What is formatted for a string that is too long. -/
def hashedText (str : Bytes) (maxlen : ℕ) : Bytes := str.take (maxlen - 8) ++ hex8 (hashAny str)

theorem shortenHash_eq (str : Bytes) (maxlen : ℕ) : shortenHash hashAny str maxlen =
    if str.length ≤ maxlen then str else snprintf maxlen (hashedText hashAny str maxlen) := rfl

/-- "Prefix from that string and hash of the string which will together be exatly maxlen." -/
structure KeepsHash (str : CString) (maxlen : ℕ) : Prop where
  short : str.strlen ≤ maxlen → shortenHash hashAny str.val maxlen = str.val
  long : maxlen < str.strlen → (shortenHash hashAny str.val maxlen).length = maxlen ∧
    shortenHash hashAny str.val maxlen = str.val.take (maxlen - 8) ++ hex8 (hashAny str.val)
  injective : maxlen < str.strlen → ∀ other : CString, maxlen < other.strlen →
    shortenHash hashAny other.val maxlen = shortenHash hashAny str.val maxlen →
      other.val.take (maxlen - 8) = str.val.take (maxlen - 8) ∧ hashAny other.val = hashAny str.val

variable {hashAny}

theorem length_hashedText {str : Bytes} {maxlen : ℕ} (enough : 8 ≤ maxlen) (long : maxlen < str.length) :
    (hashedText hashAny str maxlen).length = maxlen := by
  rw [hashedText, List.length_append, List.length_take, length_hex8]
  omega

/-- One byte is missing from a string that is shortened. -/
theorem length_shortenHash {str : Bytes} {maxlen : ℕ} (enough : 8 ≤ maxlen) (long : maxlen < str.length) :
    (shortenHash hashAny str maxlen).length = maxlen - 1 := by
  rw [shortenHash_eq, if_neg (Nat.not_le.mpr long), snprintf, List.length_take, length_hashedText enough long]
  omega

/-- All of the hash is kept exactly where no hash is needed. -/
theorem keepsHash_iff (hashAny : Bytes → UInt32) (str : CString) (maxlen : ℕ) (enough : 8 ≤ maxlen) :
    KeepsHash hashAny str maxlen ↔ str.strlen ≤ maxlen := by
  constructor
  · intro keeps
    by_contra long
    rw [Nat.not_le] at long
    have length := (keeps.long long).1
    rw [length_shortenHash enough long] at length
    omega
  · intro short
    refine ⟨fun _ => ?_, fun long => absurd short (Nat.not_le.mpr long), fun long => absurd short (Nat.not_le.mpr long)⟩
    exact if_pos short

theorem keepsHash_short : KeepsHash (fun _ => 0) (CString.ofString "pgl_database") 16 :=
  (keepsHash_iff _ _ 16 (by decide)).mpr (by decide)

theorem not_forall_keepsHash : ¬∀ (hashAny : Bytes → UInt32) (str : CString) (maxlen : ℕ), 8 ≤ maxlen →
    KeepsHash hashAny str maxlen := by
  intro keeps
  have length := ((keeps (fun _ => 0) (CString.ofString "subscription_name") 16 (by decide)).long (by decide)).1
  exact absurd length (by decide)

/-! ## `gen_slot_name` -/

/-- What PostgreSQL accepts as the name of a replication slot. -/
structure LegalSlotName (name : Bytes) : Prop where
  nonempty : name ≠ []
  short : name.length ≤ namedatalen - 1
  chars : ∀ c ∈ name, Catalog.validNameChar c = true

/-- If the name is shortened, `snprintf` cuts nothing off. -/
def ShortenedWhole (hashAny : Bytes → UInt32) (name : NameData) : Prop :=
  16 < name.str.strlen → FitsWhole 16 (hashedText hashAny name.str.val 16)

/-- The name is legal and whole, and has room for an underscore and eight digits. -/
structure SlotNameFits (hashAny : Bytes → UInt32) (dbname providerNode subscriptionName : NameData) : Prop where
  nonempty : (genSlotName hashAny dbname providerNode subscriptionName).str.val ≠ []
  room : (genSlotName hashAny dbname providerNode subscriptionName).str.strlen ≤ namedatalen - 1 - 9
  chars : ∀ c ∈ (genSlotName hashAny dbname providerNode subscriptionName).str.val, Catalog.validNameChar c = true
  joinedWhole : FitsWhole namedatalen (slotNameParts hashAny dbname providerNode subscriptionName)
  dbnameWhole : ShortenedWhole hashAny dbname
  providerWhole : ShortenedWhole hashAny providerNode
  subscriptionWhole : ShortenedWhole hashAny subscriptionName
  /-- The digits are there when the name is stored. -/
  sync : ∀ tablename,
    LegalSlotName (syncSlotName (genSlotName hashAny dbname providerNode subscriptionName) tablename) ∧
      ∃ front, (syncSlotName (genSlotName hashAny dbname providerNode subscriptionName) tablename).take
        (namedatalen - 1) = front ++ 95 :: hex8 tablename

theorem shortenedWhole_iff {name : NameData} : ShortenedWhole hashAny name ↔ name.str.strlen ≤ 16 := by
  unfold ShortenedWhole
  constructor
  · intro whole
    by_contra long
    rw [Nat.not_le] at long
    have short := fitsWhole_iff.mp (whole long)
    rw [length_hashedText (by decide) long] at short
    omega
  · intro short long
    exact absurd short (Nat.not_le.mpr long)

variable (hashAny) in
theorem length_slotNameParts (dbname providerNode subscriptionName : NameData) :
    (slotNameParts hashAny dbname providerNode subscriptionName).length ≤ namedatalen - 1 - 9 := by
  have database := length_shortenHash_le hashAny dbname.str.val
  have node := length_shortenHash_le hashAny providerNode.str.val
  have sub := length_shortenHash_le hashAny subscriptionName.str.val
  have pgl : (CString.ofString "pgl_").val.length = 4 := by decide
  simp only [slotNameParts, List.length_append, List.length_singleton, pgl, namedatalen]
  omega

variable (hashAny) in
theorem genSlotName_eq (dbname providerNode subscriptionName : NameData) :
    (genSlotName hashAny dbname providerNode subscriptionName).str.val =
      (slotNameParts hashAny dbname providerNode subscriptionName).map replaceInvalid := by
  have short := length_slotNameParts hashAny dbname providerNode subscriptionName
  have whole := List.take_of_length_le (Nat.le_trans short (Nat.sub_le _ _))
  simp only [genSlotName, whole]

theorem validNameChar_replaceInvalid (c : UInt8) : Catalog.validNameChar (replaceInvalid c) = true := by
  unfold replaceInvalid
  split
  · assumption
  · decide

theorem validNameChar_hex8 (word : UInt32) : ∀ c ∈ hex8 word, Catalog.validNameChar c = true := by
  intro c inside
  obtain ⟨k, -, rfl⟩ := List.mem_map.mp inside
  have digits : ∀ value < 16, Catalog.validNameChar (hexDigit value) = true := by decide
  exact digits _ (Nat.mod_lt _ (by decide))

variable (hashAny) in
theorem legal_syncSlotName (dbname providerNode subscriptionName : NameData) (tablename : UInt32) :
    LegalSlotName (syncSlotName (genSlotName hashAny dbname providerNode subscriptionName) tablename) := by
  have room := length_slotNameParts hashAny dbname providerNode subscriptionName
  rw [syncSlotName, genSlotName_eq]
  refine ⟨by simp, ?_, ?_⟩
  · rw [List.length_append, List.length_append, length_hex8, List.length_map, List.length_singleton]
    simp only [namedatalen] at room ⊢
    omega
  · intro c inside
    rw [List.append_assoc, List.mem_append, List.singleton_append, List.mem_cons] at inside
    obtain here | rfl | digit := inside
    · obtain ⟨original, -, rfl⟩ := List.mem_map.mp here
      exact validNameChar_replaceInvalid original
    · decide
    · exact validNameChar_hex8 tablename c digit

/-- A slot name and the name of a sync worker are legal, but the parts are whole only if none is shortened. -/
theorem slotNameFits_iff (hashAny : Bytes → UInt32) (dbname providerNode subscriptionName : NameData) :
    SlotNameFits hashAny dbname providerNode subscriptionName ↔
      dbname.str.strlen ≤ 16 ∧ providerNode.str.strlen ≤ 16 ∧ subscriptionName.str.strlen ≤ 16 := by
  constructor
  · intro fits
    exact ⟨shortenedWhole_iff.mp fits.dbnameWhole, shortenedWhole_iff.mp fits.providerWhole,
      shortenedWhole_iff.mp fits.subscriptionWhole⟩
  · rintro ⟨database, provider, subscription⟩
    have name := genSlotName_eq hashAny dbname providerNode subscriptionName
    have room := length_slotNameParts hashAny dbname providerNode subscriptionName
    have some_bytes : (slotNameParts hashAny dbname providerNode subscriptionName).map replaceInvalid ≠ [] := by
      simp [slotNameParts]
    have chars : ∀ c ∈ (slotNameParts hashAny dbname providerNode subscriptionName).map replaceInvalid,
        Catalog.validNameChar c = true := by
      intro c inside
      obtain ⟨original, -, rfl⟩ := List.mem_map.mp inside
      exact validNameChar_replaceInvalid original
    refine ⟨name ▸ some_bytes, ?_, name ▸ chars, fitsWhole_iff.mpr (Nat.le_trans room (Nat.sub_le _ _)),
      shortenedWhole_iff.mpr database, shortenedWhole_iff.mpr provider, shortenedWhole_iff.mpr subscription,
      fun tablename => ?_⟩
    · rw [CString.strlen, name, List.length_map]
      exact room
    · have legal := legal_syncSlotName hashAny dbname providerNode subscriptionName tablename
      refine ⟨legal, (genSlotName hashAny dbname providerNode subscriptionName).str.val, ?_⟩
      rw [List.take_of_length_le legal.short, syncSlotName, List.append_assoc, List.singleton_append]

/-- The seventeenth byte of a name costs a digit of its hash. -/
theorem not_forall_slotNameFits : ¬∀ (hashAny : Bytes → UInt32) (dbname providerNode subscriptionName : NameData),
    SlotNameFits hashAny dbname providerNode subscriptionName := by
  intro fits
  have whole := fitsWhole_iff.mp ((fits (fun _ => 0) (namestrcpy (CString.ofString "postgres"))
    (namestrcpy (CString.ofString "provider")) (namestrcpy (CString.ofString "subscription_name"))).subscriptionWhole
      (by decide))
  exact absurd whole (by decide)

end PGLogical.Nodes
