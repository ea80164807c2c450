import GatewayStore.Wire.Message

/-
  Reading back the fields of a message. What is written for a field is a key and a value that end where
  the next field starts, so a list of fields that can be written is read as itself
  (`Field.readAll_writeAll`). Of the fields that are read, those of one tag are the ones that were
  written for it, as all others have other tags (`Field.parts_append` and what follows it), and each
  kind of field gives its value back. Messages of which all this holds are `LawfulMessage`s; they are
  read back themselves (`Message.decode_encode`), also as parts of other messages.
-/

namespace GatewayStore.Wire

/-! ## Fields as bytes -/

theorem varint_ne_nil (n : Nat) : varint n ≠ [] := by
  rw [varint]
  split <;> exact List.cons_ne_nil _ _

namespace Field

/-- A field in one of the forms that are written, with a tag of 29 bits. -/
structure WellFormed (f : Field) : Prop where
  tag_pos : 0 < f.tag
  tag_lt : f.tag < 2 ^ 29
  value_ne : f.value ≠ .foreign

/-- The length of the field's bytes can be written. -/
def Fits (f : Field) : Prop := ∀ b, f.value = .bytes b → b.length < 2 ^ 64

/-- All lengths can be written. -/
def AllFit (fs : List Field) : Prop := ∀ f ∈ fs, f.Fits

variable {f : Field}

@[simp]
theorem allFit_append {fs gs : List Field} : AllFit (fs ++ gs) ↔ AllFit fs ∧ AllFit gs :=
  List.forall_mem_append

theorem readKey_varint {form tag : Nat} (hform : form < 6) (hpos : 0 < tag) (hlt : tag < 2 ^ 29)
    (rest : Bytes) : readKey (varint (tag * 8 + form) ++ rest) = some ((form, tag), rest) := by
  have hmod : (tag * 8 + form) % 8 = form := by omega
  have hdiv : (tag * 8 + form) / 8 = tag := by omega
  unfold readKey
  rw [readVarint_varint (by omega)]
  dsimp only
  rw [if_pos (by omega), hmod, hdiv]

theorem take?_append (b rest : Bytes) : take? b.length (b ++ rest) = some (b, rest) := by
  simp [take?]

/-- A field is read up to where it ends. -/
theorem readPiece_write (hf : f.WellFormed) (hfits : f.Fits) (rest : Bytes) :
    readPiece (f.write ++ rest) = some (.field f, rest) := by
  obtain ⟨tag, value⟩ := f
  have hpos : 0 < tag := hf.tag_pos
  have hlt : tag < 2 ^ 29 := hf.tag_lt
  unfold readPiece write
  cases value with
  | varint n =>
    have hkey := readKey_varint (by decide : 0 < 6) hpos hlt (varint n.toNat ++ rest)
    dsimp only
    rw [List.append_assoc, ← Nat.add_zero (tag * 8), hkey]
    dsimp only
    rw [readVarint_varint n.toNat_lt, Option.map_some, UInt64.ofNat_toNat]
    rfl
  | bytes b =>
    have hlength := readVarint_varint (hfits b rfl) (b ++ rest)
    dsimp only
    rw [List.append_assoc, List.append_assoc, readKey_varint (by decide) hpos hlt]
    dsimp only
    rw [hlength, Option.bind_some, take?_append]
    rfl
  | foreign => exact absurd rfl hf.value_ne

theorem write_ne_nil (hf : f.WellFormed) : f.write ≠ [] := by
  obtain ⟨tag, value⟩ := f
  unfold write
  cases value with
  | varint n => exact List.append_ne_nil_of_left_ne_nil (varint_ne_nil _) _
  | bytes b =>
    dsimp only
    rw [List.append_assoc]
    exact List.append_ne_nil_of_left_ne_nil (varint_ne_nil _) _
  | foreign => exact absurd rfl hf.value_ne

theorem writeAll_cons (f : Field) (fs : List Field) : writeAll (f :: fs) = f.write ++ writeAll fs :=
  List.flatMap_cons

theorem readFrom_field {nesting fuel : Nat} {b rest : Bytes} (hb : b ≠ [])
    (h : readPiece b = some (.field f, rest)) :
    readFrom nesting (fuel + 1) [] b = (readFrom nesting fuel [] rest).map (f :: ·) := by
  cases b with
  | nil => exact absurd rfl hb
  | cons first b => simp only [readFrom, h]

/-- Every field takes at least one byte of the fuel. -/
theorem readFrom_writeAll (nesting : Nat) {fs : List Field} (hfs : ∀ f ∈ fs, f.WellFormed)
    (hfits : AllFit fs) {fuel : Nat} (hfuel : (writeAll fs).length ≤ fuel) :
    readFrom nesting fuel [] (writeAll fs) = some fs := by
  induction fs generalizing fuel with
  | nil => exact readFrom.eq_1 nesting fuel
  | cons f fs ih =>
    have hf := hfs f List.mem_cons_self
    have hne := write_ne_nil hf
    have hpos := List.length_pos_iff.2 hne
    rw [writeAll_cons, List.length_append] at hfuel
    obtain ⟨fuel, rfl⟩ := Nat.exists_eq_add_one_of_ne_zero (by omega : fuel ≠ 0)
    have hrest := ih (fun f' hf' => hfs f' (List.mem_cons_of_mem _ hf'))
      (fun f' hf' => hfits f' (List.mem_cons_of_mem _ hf')) (by omega : _ ≤ fuel)
    have hpiece := readPiece_write hf (hfits f List.mem_cons_self) (writeAll fs)
    rw [writeAll_cons, readFrom_field (List.append_ne_nil_of_left_ne_nil hne _) hpiece, hrest,
      Option.map_some]

/-- Fields that can be written are read as they are. -/
theorem readAll_writeAll (nesting : Nat) {fs : List Field} (hfs : ∀ f ∈ fs, f.WellFormed)
    (hfits : AllFit fs) : readAll nesting (writeAll fs) = some fs :=
  readFrom_writeAll nesting hfs hfits (Nat.le_refl _)

theorem length_le_of_mem {fs : List Field} (hf : f ∈ fs) {b : Bytes} (hb : f.value = .bytes b) :
    b.length ≤ (writeAll fs).length := by
  have hwrite : b.length ≤ f.write.length := by
    unfold write
    rw [hb]
    dsimp only
    rw [List.length_append]
    exact Nat.le_add_left _ _
  calc b.length ≤ f.write.length := hwrite
    _ ≤ (writeAll fs).length := (List.sublist_flatten_of_mem (List.mem_map_of_mem hf)).length_le

/-- In a message whose length can be written, all lengths can. -/
theorem allFit_of_length_lt {fs : List Field} (h : (writeAll fs).length < 2 ^ 64) : AllFit fs :=
  fun _ hf _ hb => Nat.lt_of_le_of_lt (length_le_of_mem hf hb) h

/-! ## Fields of some tags -/

/-- Fields that are written, all of them with one of the tags. -/
class OfTags (tags : outParam (List Nat)) (fs : List Field) : Prop where
  tag_mem : ∀ f ∈ fs, f.tag ∈ tags
  value_ne : ∀ f ∈ fs, f.value ≠ .foreign

instance (tag : Nat) (n : UInt64) : OfTags [tag] (uint64 tag n) := by
  constructor <;> intro f hf <;> unfold uint64 at hf <;> split at hf <;> simp_all

instance (tag : Nat) (i : Int64) : OfTags [tag] (int64 tag i) :=
  inferInstanceAs (OfTags [tag] (uint64 tag i.toUInt64))

instance (tag : Nat) (i : Int32) : OfTags [tag] (int32 tag i) :=
  inferInstanceAs (OfTags [tag] (int64 tag i.toInt64))

instance (tag : Nat) (b : Bool) : OfTags [tag] (bool tag b) := by
  constructor <;> intro f hf <;> unfold bool at hf <;> split at hf <;> simp_all

instance (tag : Nat) (b : Bytes) : OfTags [tag] (bytes tag b) := by
  constructor <;> intro f hf <;> unfold bytes at hf <;> split at hf <;> simp_all

instance (tag : Nat) (s : String) : OfTags [tag] (text tag s) :=
  inferInstanceAs (OfTags [tag] (bytes tag (Text.utf8 s)))

instance {α : Type} [Message α] (tag : Nat) (l : List α) : OfTags [tag] (repeated tag l) := by
  constructor <;> intro f hf <;> obtain ⟨m, -, rfl⟩ := List.mem_map.1 hf <;> simp

instance {α : Type} [Message α] (tag : Nat) (m : Option α) : OfTags [tag] (optional tag m) :=
  inferInstanceAs (OfTags [tag] (repeated tag m.toList))

instance (tags tags' : List Nat) (fs gs : List Field) [OfTags tags fs] [OfTags tags' gs] :
    OfTags (tags ++ tags') (fs ++ gs) where
  tag_mem f hf := by
    rcases List.mem_append.1 hf with hf | hf
    · exact List.mem_append_left _ (OfTags.tag_mem f hf)
    · exact List.mem_append_right _ (OfTags.tag_mem f hf)
  value_ne f hf := by
    rcases List.mem_append.1 hf with hf | hf
    · exact OfTags.value_ne f hf
    · exact OfTags.value_ne f hf

theorem wellFormed_of_tags {tags : List Nat} (fs : List Field) [OfTags tags fs]
    (htags : ∀ tag ∈ tags, 0 < tag ∧ tag < 2 ^ 29) : ∀ f ∈ fs, f.WellFormed := fun f hf =>
  have hbounds := htags f.tag (OfTags.tag_mem f hf)
  ⟨hbounds.1, hbounds.2, OfTags.value_ne f hf⟩

@[simp]
theorem parts_append (tag : Nat) (fs gs : List Field) :
    parts tag (fs ++ gs) = parts tag fs ++ parts tag gs := by
  simp [parts]

@[simp]
theorem parts_of_not_mem {tag : Nat} {tags : List Nat} {fs : List Field} [OfTags tags fs]
    (h : tag ∉ tags) : parts tag fs = [] := by
  unfold parts
  rw [List.filter_eq_nil_iff.2, List.map_nil]
  intro f hf
  have hmem := OfTags.tag_mem f hf
  simp only [decide_eq_true_eq]
  rintro rfl
  exact h hmem

/-! ## Fields as values -/

@[simp]
theorem read_uint64 (tag : Nat) (n : UInt64) :
    Parts.uint64 (parts tag (uint64 tag n)) = some n := by
  by_cases h : n = 0 <;> simp [uint64, parts, Parts.uint64, Parts.last, Value.varint?, h]

@[simp]
theorem read_int64 (tag : Nat) (i : Int64) : Parts.int64 (parts tag (int64 tag i)) = some i := by
  simp [Parts.int64, int64]

@[simp]
theorem read_int32 (tag : Nat) (i : Int32) : Parts.int32 (parts tag (int32 tag i)) = some i := by
  simp [Parts.int32, int32]

@[simp]
theorem read_bool (tag : Nat) (b : Bool) : Parts.bool (parts tag (bool tag b)) = some b := by
  cases b <;> simp [bool, parts, Parts.bool, Parts.uint64, Parts.last, Value.varint?]

@[simp]
theorem read_bytes (tag : Nat) (b : Bytes) : Parts.bytes (parts tag (bytes tag b)) = some b := by
  by_cases h : b = [] <;> simp [bytes, parts, Parts.bytes, Parts.last, Value.bytes?, h]

@[simp]
theorem read_text (tag : Nat) (s : String) : Parts.text (parts tag (text tag s)) = some s := by
  have hread : Value.text? (.bytes (Text.utf8 s)) = some s := Text.ofUtf8?_utf8 s
  by_cases h : Text.utf8 s = []
  · have hempty : "" = s := Text.utf8_injective h.symm
    simp [text, bytes, parts, Parts.text, Parts.last, h, hempty]
  · simp [text, bytes, parts, Parts.text, Parts.last, h, hread]

end Field

/-! ## Messages -/

/-- Messages whose fields can be written, and give the message if they are read. -/
class LawfulMessage (α : Type) [Message α] : Prop where
  wellFormed : ∀ m : α, ∀ f ∈ Message.fields m, f.WellFormed := by
    intro m
    simp only [Message.fields]
    exact Field.wellFormed_of_tags _ (by decide)
  read_fields : ∀ (nesting : Nat) (m : α), Field.AllFit (Message.fields m) →
    Message.read nesting (Message.fields m) = some m

section

variable {α : Type} [Message α] [LawfulMessage α] {m : α}

theorem Message.readAll_encode (nesting : Nat) (h : (encode m).length < 2 ^ 64) :
    Field.readAll nesting (encode m) = some (fields m) :=
  Field.readAll_writeAll nesting (LawfulMessage.wellFormed m) (Field.allFit_of_length_lt h)

theorem Message.decodeIn_encode (nesting : Nat) (h : (encode m).length < 2 ^ 64) :
    decodeIn nesting (encode m) = some m := by
  rw [decodeIn, readAll_encode nesting h, Option.bind_some]
  exact LawfulMessage.read_fields nesting m (Field.allFit_of_length_lt h)

/-- A message is read as it was written. -/
theorem Message.decode_encode (h : (encode m).length < 2 ^ 64) : decode (encode m) = some m :=
  decodeIn_encode maxNesting h

theorem Message.encode_injective {m' : α} (h : (encode m).length < 2 ^ 64)
    (heq : encode m' = encode m) : m' = m := by
  have hm := decode_encode h
  rw [← heq, decode_encode (by rwa [heq])] at hm
  exact Option.some.inj hm

/-- A message inside of another one. -/
theorem Parts.merged_encode (nesting : Nat) (h : (Message.encode m).length < 2 ^ 64) :
    merged nesting [.bytes (Message.encode m)] = some m := by
  have hread := LawfulMessage.read_fields (nesting - 1) m (Field.allFit_of_length_lt h)
  simp [merged, Value.bytes?, Message.readAll_encode (nesting - 1) h, hread]

namespace Field

@[simp]
theorem read_optional (nesting tag : Nat) {o : Option α} (h : AllFit (optional tag o)) :
    Parts.optional nesting (parts tag (optional tag o)) = some o := by
  cases o with
  | none => rfl
  | some m =>
    have hfits := h _ (List.mem_singleton.2 rfl) _ rfl
    simp [optional, parts, Parts.optional, Parts.merged_encode nesting hfits]

@[simp]
theorem read_repeated (nesting tag : Nat) {l : List α} (h : AllFit (repeated tag l)) :
    Parts.repeated nesting (parts tag (repeated tag l)) = some l := by
  have hparts : parts tag (repeated tag l) = l.map fun m => .bytes (Message.encode m) := by
    unfold parts repeated
    rw [List.filter_eq_self.2 (by simp), List.map_map]
    rfl
  have hread : ∀ m ∈ l, (Message.decodeIn (nesting - 1) (Message.encode m) : Option α) = some m :=
    fun m hm => Message.decodeIn_encode _ (h _ (List.mem_map_of_mem hm) _ rfl)
  rw [hparts, Parts.repeated, List.mapM_map]
  clear h hparts
  induction l with
  | nil => rfl
  | cons m l ih =>
    rw [List.forall_mem_cons] at hread
    rw [List.mapM_cons, ih hread.2]
    simp [Value.bytes?, hread.1]

end Field

end

/-! ## Choices -/

/-- A choice between fields with some tags, each of which is read on its own. -/
class LawfulChoice {α : Type} (tags : outParam (List Nat)) (field : α → Field)
    (read : outParam (Nat → Nat → List Value → Option α)) : Prop where
  tag_mem : ∀ a, (field a).tag ∈ tags
  value_ne : ∀ a, (field a).value ≠ .foreign
  read_field : ∀ nesting a, (field a).Fits → read nesting (field a).tag [(field a).value] = some a

namespace Field

variable {α : Type} {tags : List Nat}

instance {field : α → Field} {read : Nat → Nat → List Value → Option α}
    [LawfulChoice tags field read] (o : Option α) : OfTags tags (o.toList.map field) where
  tag_mem f hf := by
    obtain ⟨a, -, rfl⟩ := List.mem_map.1 hf
    exact LawfulChoice.tag_mem a
  value_ne f hf := by
    obtain ⟨a, -, rfl⟩ := List.mem_map.1 hf
    exact LawfulChoice.value_ne a

section

variable {read : Nat → List Value → Option α} {others : List Nat} {fs gs : List Field}

theorem filter_tags_eq_nil (fs : List Field) [OfTags others fs] (h : ∀ t ∈ others, t ∉ tags) :
    fs.filter (fun f => f.tag ∈ tags) = [] := by
  refine List.filter_eq_nil_iff.2 fun f hf => ?_
  simpa using h _ (OfTags.tag_mem f hf)

theorem choice_append_right [OfTags others gs] (h : ∀ t ∈ others, t ∉ tags) :
    choice tags read (fs ++ gs) = choice tags read fs := by
  unfold choice
  rw [List.filter_append, filter_tags_eq_nil gs h, List.append_nil]

theorem choice_append_left [OfTags others fs] (h : ∀ t ∈ others, t ∉ tags) :
    choice tags read (fs ++ gs) = choice tags read gs := by
  unfold choice
  rw [List.filter_append, filter_tags_eq_nil fs h, List.nil_append]

end

/-- A choice that was made is one field. -/
theorem choice_toList (nesting : Nat) {field : α → Field}
    {read : Nat → Nat → List Value → Option α} [LawfulChoice tags field read] {o : Option α}
    (h : AllFit (o.toList.map field)) :
    choice tags (read nesting) (o.toList.map field) = some o := by
  cases o with
  | none => rfl
  | some a =>
    have hruns : [field a].splitBy (fun a b => a.tag = b.tag) = [[field a]] := rfl
    have hmem : (field a).tag ∈ tags := LawfulChoice.tag_mem a
    have hread : read nesting (field a).tag [(field a).value] = some a :=
      LawfulChoice.read_field nesting a (h _ (List.mem_singleton.2 rfl))
    simp [choice, hmem, hruns, hread]

end Field

end GatewayStore.Wire
