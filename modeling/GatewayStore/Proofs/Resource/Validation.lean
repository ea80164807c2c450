import GatewayStore.Proofs.Resource.Keys

/-
  What is accepted for writing. Each check of a resource is met by a condition on its fields
  (`checkFields_eq_ok_iff`, `checkReference_eq_ok_iff`), and the checks together accept a resource with a
  key exactly if it is valid with that key (`validate_eq_ok_iff`). A check looks at the id and at the
  fields that its kind names, so nothing else in a resource matters (`validate_congr`).
-/

namespace GatewayStore

/-! ## Valid resources -/

namespace Kind

/-- The fields of which a kind requires all or one. -/
def requiredFields : Kind → List String
  | .route => ["uri", "uris"]
  | .upstream => ["nodes", "service_name"]
  | .ssl => ["cert", "key"]
  | .script => ["script"]
  | .globalRule | .pluginConfig => ["plugins"]
  | .proto => ["content"]
  | .service | .consumer | .streamRoute | .serverInfo => []

/-- The payload fields that the checks of a kind look at. -/
def checkedFields (kind : Kind) : List String :=
  (if kind.isKeyedById then [] else [kind.keyField]) ++ kind.requiredFields ++
    kind.references.map Reference.field

/-- Only consumers are not keyed by their id. -/
theorem isKeyedById_eq_false_iff {kind : Kind} : kind.isKeyedById = false ↔ kind = .consumer := by
  cases kind <;> simp [isKeyedById]

end Kind

/-- Live keys are relaxed: the kinds that stay registered lose no key. -/
structure LiveKeys.Relaxed (live live' : LiveKeys) : Prop where
  registered : ∀ kind, live'.isRegistered kind = true → live.isRegistered kind = true
  kept : ∀ kind key, live'.isRegistered kind = true → live.contains kind key = true →
    live'.contains kind key = true

namespace Resource

/-- A field is a string that is not empty. -/
def HasText (r : Resource) (field : String) : Prop :=
  ∃ text, r.field? field = some (.string text) ∧ text ≠ ""

/-- The required fields of a kind are there, each in its shape. -/
def HasRequired (r : Resource) : Kind → Prop
  | .route => (r.field? "uri").isSome ∨ (r.field? "uris").isSome
  | .upstream => (r.field? "nodes").isSome ∨ (r.field? "service_name").isSome
  | .ssl => r.HasText "cert" ∧ r.HasText "key"
  | .script => (r.field? "script").isSome
  | .globalRule | .pluginConfig => ∃ members, r.field? "plugins" = some (.object members)
  | .proto => r.HasText "content"
  | .service | .consumer | .streamRoute | .serverInfo => True

/-- What a reference field has to be unless it is absent, null or empty: a string or a number that is a
live key of the target, if the target is registered. -/
def Refers (r : Resource) (live : LiveKeys) (ref : Reference) : Prop :=
  ∀ v, r.field? ref.field = some v → v ≠ .null → v ≠ .string "" →
    ∃ target, (v = .string target ∨ ∃ n, v = .number n ∧ n.toText = target) ∧
      (live.isRegistered ref.target = true → live.contains ref.target target = true)

/-- A resource that may be written as one of a kind, under its key. -/
structure IsValid (r : Resource) (kind : Kind) (live : LiveKeys) (key : String) : Prop where
  key_eq : r.key? kind = some key
  isKey : IsKey key
  isKey_id : kind = .consumer → r.id = "" ∨ IsKey r.id
  required : r.HasRequired kind
  references : ∀ ref ∈ kind.references, r.Refers live ref

end Resource

/-! ## Texts of numbers -/

theorem FloatLayout.text_ne_nil (l : FloatLayout) (d : Decimal) : l.text d ≠ [] := by
  unfold text
  dsimp only
  split
  · split
    · simp
    · split <;> simp
  · simp

/-- A number that serves as a key is not taken for an empty one. -/
theorem Json.Number.toText_ne (n : Json.Number) : n.toText ≠ "" := by
  have htext : n.text ≠ [] := by
    cases n with
    | integer i fits =>
      rw [text, intText]
      split
      · exact List.cons_ne_nil _ _
      · exact Nat.toDigits_ne_nil
    | float x =>
      rw [text, FloatLayout.write]
      refine List.append_ne_nil_of_right_ne_nil _ ?_
      split
      · exact List.cons_ne_nil _ _
      · exact FloatLayout.text_ne_nil _ _
  intro hempty
  exact htext (by simpa [toText] using congrArg String.toList hempty)

theorem Except.bind_eq_ok_iff {ε α : Type} {check : Except ε Unit} {next : Unit → Except ε α}
    {a : α} :
    check >>= next = .ok a ↔ check = .ok () ∧ next () = .ok a := by
  cases check <;> simp [bind, Except.bind]

theorem Except.forM_eq_ok_iff {ε α : Type} {l : List α} {check : α → Except ε Unit} :
    l.forM check = .ok () ↔ ∀ a ∈ l, check a = .ok () := by
  induction l with
  | nil => simp [pure, Except.pure]
  | cons a l ih =>
    show check a >>= (fun _ => l.forM check) = .ok () ↔ _
    rw [Except.bind_eq_ok_iff, ih, List.forall_mem_cons]

theorem Except.forM_congr {ε α : Type} {l : List α} {check check' : α → Except ε Unit}
    (h : ∀ a ∈ l, check' a = check a) : l.forM check' = l.forM check := by
  induction l with
  | nil => rfl
  | cons a l ih =>
    rw [List.forall_mem_cons] at h
    show (check' a >>= fun _ => l.forM check') = check a >>= fun _ => l.forM check
    rw [h.1, ih h.2]

namespace Resource

variable {r r' : Resource} {kind : Kind} {live live' : LiveKeys} {key : String}

theorem requireText_eq_ok_iff {field : String} : r.requireText field = .ok () ↔ r.HasText field := by
  unfold requireText HasText fieldString?
  cases r.field? field with
  | none => simp
  | some v =>
    cases v with
    | string text =>
      by_cases htext : text = ""
      · subst htext
        simp [Json.string?]
      · simp [Json.string?, htext]
    | _ => simp [Json.string?]

theorem checkPlugins_eq_ok_iff :
    checkFields.checkPlugins r kind = .ok () ↔
      ∃ members, r.field? "plugins" = some (.object members) := by
  unfold checkFields.checkPlugins
  split
  · next members hfield => simp [hfield]
  · next hfield => simpa using hfield

theorem checkFields_eq_ok_iff : r.checkFields kind = .ok () ↔ r.HasRequired kind := by
  cases kind with
  | route =>
    rw [checkFields, HasRequired]
    cases r.field? "uri" <;> cases r.field? "uris" <;> simp
  | upstream =>
    rw [checkFields, HasRequired]
    cases r.field? "nodes" <;> cases r.field? "service_name" <;> simp
  | ssl =>
    rw [checkFields, HasRequired, Except.bind_eq_ok_iff, requireText_eq_ok_iff,
      requireText_eq_ok_iff]
  | script =>
    rw [checkFields, HasRequired]
    cases r.field? "script" <;> simp
  | globalRule | pluginConfig => exact checkPlugins_eq_ok_iff
  | proto => exact requireText_eq_ok_iff
  | service | consumer | streamRoute | serverInfo => exact ⟨fun _ => trivial, fun _ => rfl⟩

/-- An empty text is skipped, which a number does not have. -/
theorem checkReference_eq_ok_iff {ref : Reference} :
    r.checkReference live ref = .ok () ↔ r.Refers live ref := by
  unfold checkReference Refers
  cases r.field? ref.field with
  | none => simp
  | some v =>
    cases v with
    | null => simp
    | string text =>
      by_cases htext : text = ""
      · simp [Json.asKey?, htext]
      · cases live.isRegistered ref.target <;> simp [Json.asKey?, htext]
    | number n => cases live.isRegistered ref.target <;> simp [Json.asKey?, n.toText_ne]
    | _ => simp [Json.asKey?]

/-! ## All checks -/

/-- An id is checked besides the key if it is not the key. -/
theorem checkId_eq_ok_iff :
    (if r.id ≠ "" ∧ !kind.isKeyedById then checkKey r.id else .ok ()) = .ok () ↔
      (kind = .consumer → r.id = "" ∨ IsKey r.id) := by
  rw [← Kind.isKeyedById_eq_false_iff]
  by_cases hid : r.id = ""
  · simp [hid]
  · cases kind.isKeyedById <;> simp [hid, checkKey_eq_ok_iff]

theorem validate_eq (hkey : r.key? kind = some key) : r.validate kind live = (do
    checkKey key
    (if r.id ≠ "" ∧ !kind.isKeyedById then checkKey r.id else .ok ())
    r.checkFields kind
    kind.references.forM (r.checkReference live)
    .ok key) := by
  unfold validate
  rw [hkey]
  dsimp only
  split <;> rfl

/-- Validation gives a key exactly if the resource is valid with it. -/
theorem validate_eq_ok_iff : r.validate kind live = .ok key ↔ r.IsValid kind live key := by
  cases hkey : r.key? kind with
  | none =>
    unfold validate
    rw [hkey]
    exact ⟨nofun, fun h => nomatch hkey.symm.trans h.key_eq⟩
  | some found =>
    rw [validate_eq hkey]
    simp only [Except.bind_eq_ok_iff, checkKey_eq_ok_iff, checkId_eq_ok_iff, checkFields_eq_ok_iff,
      Except.forM_eq_ok_iff, checkReference_eq_ok_iff, Except.ok.injEq]
    constructor
    · rintro ⟨hfound, hid, hrequired, hreferences, rfl⟩
      exact ⟨hkey, hfound, hid, hrequired, hreferences⟩
    · intro h
      obtain rfl : found = key := Option.some.inj (hkey.symm.trans h.key_eq)
      exact ⟨h.isKey, h.isKey_id, h.required, h.references, rfl⟩

/-! ## What does not matter -/

/-- Relaxed live keys refuse nothing that was accepted. -/
theorem IsValid.relaxed (h : r.IsValid kind live key) (hlive : live.Relaxed live') :
    r.IsValid kind live' key where
  key_eq := h.key_eq
  isKey := h.isKey
  isKey_id := h.isKey_id
  required := h.required
  references ref href v hv hnull hempty := by
    obtain ⟨target, htarget, hlisted⟩ := h.references ref href v hv hnull hempty
    refine ⟨target, htarget, fun hregistered => ?_⟩
    exact hlive.kept _ _ hregistered (hlisted (hlive.registered _ hregistered))

section

variable (hid : r'.id = r.id)
  (hfields : ∀ name ∈ kind.checkedFields, r'.field? name = r.field? name)

include hid hfields in
theorem key?_congr_fields : r'.key? kind = r.key? kind := by
  unfold key?
  cases hkeyed : kind.isKeyedById with
  | true =>
    rw [hid]
    rfl
  | false =>
    have hfield : r'.field? kind.keyField = r.field? kind.keyField :=
      hfields _ (by simp [Kind.checkedFields, hkeyed])
    simp [hfield]

include hfields in
theorem checkFields_congr : r'.checkFields kind = r.checkFields kind := by
  have hrequired : ∀ name ∈ kind.requiredFields, r'.field? name = r.field? name :=
    fun name hname => hfields name (by simp [Kind.checkedFields, hname])
  cases kind <;>
    simp_all [Kind.requiredFields, checkFields, checkFields.checkPlugins, requireText, fieldString?]

include hfields in
theorem checkReference_congr {ref : Reference} (href : ref ∈ kind.references) :
    r'.checkReference live ref = r.checkReference live ref := by
  have hfield : r'.field? ref.field = r.field? ref.field :=
    hfields _ (List.mem_append_right _ (List.mem_map_of_mem href))
  unfold checkReference
  rw [hfield]

include hid hfields in
/-- Resources with the same id that agree on the fields that are checked are judged alike. -/
theorem validate_congr : r'.validate kind live = r.validate kind live := by
  have hreferences : kind.references.forM (r'.checkReference live) =
      kind.references.forM (r.checkReference live) :=
    Except.forM_congr fun ref href => checkReference_congr hfields href
  unfold validate
  rw [key?_congr_fields hid hfields, hid, checkFields_congr hfields, hreferences]

end

/-! ## The main result -/

/-- Validation accepts exactly the valid resources, and gives their keys. What it accepts it accepts as
well with live keys that are relaxed, and of a resource only the id and the checked fields count. -/
theorem validation_exact (r : Resource) (kind : Kind) (live : LiveKeys) :
    (∀ key, r.validate kind live = .ok key ↔ r.IsValid kind live key) ∧
    (∀ live' key, live.Relaxed live' → r.validate kind live = .ok key →
      r.validate kind live' = .ok key) ∧
    ∀ r' : Resource, r'.id = r.id →
      (∀ name ∈ kind.checkedFields, r'.field? name = r.field? name) →
      r'.validate kind live = r.validate kind live := by
  refine ⟨fun key => validate_eq_ok_iff, fun live' key hlive hvalid => ?_,
    fun r' => validate_congr⟩
  exact validate_eq_ok_iff.2 ((validate_eq_ok_iff.1 hvalid).relaxed hlive)

/-- A route that refers to a service by a number, to a plugin config, and to no upstream and no
script. -/
def referringRoute : Resource :=
  ⟨"r.1", 0, 0, .ofPairs [("plugin_config_id", .string "p"), ("script_id", .string ""),
    ("service_id", .number (.integer 9 (by decide))), ("upstream_id", .null), ("uri", .null)]⟩

/-- One service and no scripts are live, and plugin configs are not registered. -/
def oneService : LiveKeys where
  isRegistered kind := kind = .service || kind = .script
  contains kind key := kind = .service && key = "9"

theorem validation_exact_referring :
    let described : Resource :=
      { referringRoute with
        updateTime := 5
        payload := referringRoute.payload.insert "desc" (.bool true) }
    referringRoute.IsValid .route oneService "r.1" ∧
      referringRoute.validate .route ⟨fun _ => false, oneService.contains⟩ = .ok "r.1" ∧
      described.validate .route oneService = .ok "r.1" := by
  intro described
  have hvalid : referringRoute.validate .route oneService = .ok "r.1" := by rfl
  obtain ⟨haccepts, hrelaxed, hcongr⟩ := validation_exact referringRoute .route oneService
  have hfields : ∀ name ∈ Kind.route.checkedFields,
      described.field? name = referringRoute.field? name := by
    intro name hname
    have hne : name ≠ "desc" := by
      rintro rfl
      exact absurd hname (by decide)
    exact (KeyMap.get?_insert _ _ _ _).trans (if_neg hne)
  exact ⟨(haccepts "r.1").1 hvalid, hrelaxed _ "r.1" ⟨nofun, fun _ _ => nofun⟩ hvalid,
    (hcongr described rfl hfields).trans hvalid⟩

end Resource

end GatewayStore
