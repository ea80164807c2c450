import GatewayStore.Etcd.Exchange
import GatewayStore.Proofs.Store.Recording

/-
  Conditional puts, to a server and to the store in memory. What is sent to a server is a comparison of
  revisions, and to a server an absent key has revision zero. The store in memory looks for the record.
  The server is not modelled: its comparisons are a parameter, of which `ComparesRevisions` says what
  they mean. The two agree but for one condition, that the key is unchanged since revision zero: no
  key that is present can meet it, and to a server every absent key does.
-/

namespace GatewayStore

/-- The number of a condition has 64 bits. -/
def Condition.Fits : Condition → Prop
  | .absent | .present => True
  | .unchanged revision => revision < 2 ^ 64

namespace Etcd

/-! ## The server -/

/-- The keys of a server. -/
abbrev Keyspace := Bytes → Option KeyValue

namespace Keyspace

/-- The revision of a key's creation; zero if it is absent. -/
def created (state : Keyspace) (key : Bytes) : Int64 :=
  ((state key).map KeyValue.createRevision).getD 0

/-- The revision of a key's last change; zero if it is absent. -/
def modified (state : Keyspace) (key : Bytes) : Int64 :=
  ((state key).map KeyValue.modRevision).getD 0

/-- Keys that are present have positive revisions. -/
structure Numbered (state : Keyspace) : Prop where
  created_pos : ∀ key kv, state key = some kv → 1 ≤ kv.createRevision
  created_le : ∀ key kv, state key = some kv → kv.createRevision ≤ kv.modRevision

end Keyspace

/-- What the comparisons of a key's revisions mean to a server. -/
structure ComparesRevisions (holds : Keyspace → Compare → Bool) : Prop where
  created_equal : ∀ state key n, holds state
    ⟨Compare.equal, Compare.createTarget, key, some (.createRevision n), []⟩ = true ↔
      state.created key = n
  created_greater : ∀ state key n, holds state
    ⟨Compare.greater, Compare.createTarget, key, some (.createRevision n), []⟩ = true ↔
      n < state.created key
  modified_equal : ∀ state key n, holds state
    ⟨Compare.equal, Compare.modTarget, key, some (.modRevision n), []⟩ = true ↔
      state.modified key = n

/-- The record in memory that says the same of a key. -/
def KeyValue.record (kv : KeyValue) : Record :=
  ⟨kv.value, revisionOf kv.createRevision, revisionOf kv.modRevision⟩

/-! ## Signed revisions -/

theorem toInt_signed {n : Nat} (hn : n < 2 ^ 64) :
    (signed n).toInt = if n < 2 ^ 63 then (n : Int) else (n : Int) - 2 ^ 64 := by
  have hbits : (signed n).toBitVec = BitVec.ofNat 64 n := rfl
  show (signed n).toBitVec.toInt = _
  rw [hbits, BitVec.toInt_eq_toNat_cond, BitVec.toNat_ofNat, Nat.mod_eq_of_lt hn]
  split <;> split <;> omega

/-- A number of 64 bits that is too large for a signed one is no positive revision. -/
theorem eq_signed_iff {i : Int64} (hi : 1 ≤ i) {n : Nat} (hn : n < 2 ^ 64) :
    i = signed n ↔ revisionOf i = n := by
  have hpos : 1 ≤ i.toInt := Int64.le_iff_toInt_le.1 hi
  have hlt : i.toInt < 2 ^ 63 := i.toInt_lt
  rw [← Int64.toInt_inj, toInt_signed hn]
  show _ ↔ i.toInt.toNat = n
  split <;> omega

/-! ## Comparisons -/

variable {holds : Keyspace → Compare → Bool} {state : Keyspace} {key : String}

/-- Of an absent key the comparison asks for revision zero. -/
theorem ComparesRevisions.of_absent (h : ComparesRevisions holds)
    (habsent : state (Text.utf8 key) = none) {condition : Condition} (hfits : condition.Fits) :
    holds state (compareFor key condition) = true ↔
      condition = .absent ∨ condition = .unchanged 0 := by
  have hcreated : state.created (Text.utf8 key) = 0 := by simp [Keyspace.created, habsent]
  have hmodified : state.modified (Text.utf8 key) = 0 := by simp [Keyspace.modified, habsent]
  match condition with
  | .absent => simpa [compareFor, hcreated] using h.created_equal state (Text.utf8 key) 0
  | .present => simpa [compareFor, hcreated] using h.created_greater state (Text.utf8 key) 0
  | .unchanged n =>
    have hn : n < 2 ^ 64 := hfits
    have hzero : (0 : Int64) = signed n ↔ n = 0 := by
      rw [← Int64.toInt_inj, toInt_signed hn, Int64.toInt_zero]
      split <;> omega
    rw [compareFor, h.modified_equal, hmodified, hzero]
    simp

/-- Of a present key the comparison asks what the store in memory asks. -/
theorem ComparesRevisions.of_present (h : ComparesRevisions holds) (hnumbered : state.Numbered)
    {kv : KeyValue} (hkv : state (Text.utf8 key) = some kv) {condition : Condition}
    (hfits : condition.Fits) :
    holds state (compareFor key condition) = true ↔ condition.holds (some kv.record) = true := by
  have hcreated : state.created (Text.utf8 key) = kv.createRevision := by
    simp [Keyspace.created, hkv]
  have hmodified : state.modified (Text.utf8 key) = kv.modRevision := by
    simp [Keyspace.modified, hkv]
  have hpos : 1 ≤ kv.createRevision := hnumbered.created_pos _ _ hkv
  have hle : 1 ≤ kv.modRevision := Int64.le_trans hpos (hnumbered.created_le _ _ hkv)
  match condition with
  | .absent =>
    rw [compareFor, h.created_equal, hcreated]
    show kv.createRevision = 0 ↔ false = true
    have hne : kv.createRevision ≠ 0 := by
      intro hzero
      rw [hzero] at hpos
      exact absurd hpos (by decide)
    simpa using hne
  | .present =>
    rw [compareFor, h.created_greater, hcreated]
    show 0 < kv.createRevision ↔ true = true
    have hlt : 0 < kv.createRevision := Int64.lt_of_lt_of_le (by decide) hpos
    simpa using hlt
  | .unchanged n =>
    rw [compareFor, h.modified_equal, hmodified, eq_signed_iff hle hfits]
    show _ ↔ decide (revisionOf kv.modRevision = n) = true
    rw [decide_eq_true_eq]

/-- A put with a condition, sent to a server or made in memory, the key being the same on both sides.
What is sent is one comparison and the put. The comparison holds exactly if the store in memory takes
the put, or if the key is absent and is to be unchanged since revision zero. -/
theorem conditional_puts_agree (hcompares : ComparesRevisions holds) (hnumbered : state.Numbered)
    {s : Store} (honline : s.isOffline = false)
    (hsame : s.index.get? key = (state (Text.utf8 key)).map KeyValue.record) (value : Bytes)
    {condition : Condition} (hfits : condition.Fits) :
    sent? (.put key value (some condition)) = some ⟨.txn, Wire.Message.encode
      (TxnRequest.mk [compareFor key condition] [⟨some (.put ⟨Text.utf8 key, value⟩)⟩] [])⟩ ∧
    (holds state (compareFor key condition) = true ↔
      (∃ s', s.put key value (some condition) = .ok s') ∨
        condition = .unchanged 0 ∧ s.index.get? key = none) := by
  refine ⟨rfl, ?_⟩
  have htaken : (∃ s', s.put key value (some condition) = .ok s') ↔
      condition.holds (s.index.get? key) = true := by
    constructor
    · rintro ⟨s', hput⟩
      exact (Store.put_eq_ok.1 hput).2.1
    · intro hholds
      exact ⟨_, Store.put_eq_ok.2 ⟨honline, hholds, rfl⟩⟩
  rw [htaken, hsame]
  cases hkv : state (Text.utf8 key) with
  | some kv =>
    rw [hcompares.of_present hnumbered hkv hfits]
    simp
  | none =>
    rw [hcompares.of_absent hkv hfits]
    cases condition <;> simp [Condition.holds]

/-- A server that knows the comparisons which are sent. -/
def compareRevisions (state : Keyspace) (c : Compare) : Bool :=
  let revision? : Option (Int64 × Int64) := match c.operand with
    | some (.createRevision n) =>
      if c.target = Compare.createTarget then some (state.created c.key, n) else none
    | some (.modRevision n) =>
      if c.target = Compare.modTarget then some (state.modified c.key, n) else none
    | _ => none
  match revision? with
  | none => false
  | some (found, n) =>
    if c.result = Compare.equal then found = n else c.result = Compare.greater && n < found

theorem comparesRevisions : ComparesRevisions compareRevisions where
  created_equal state key n := by simp [compareRevisions]
  created_greater state key n := by
    have hne : Compare.greater ≠ Compare.equal := by decide
    simp [compareRevisions, hne]
  modified_equal state key n := by simp [compareRevisions]

/-- The server's side of a key that was written twice. -/
def writtenTwice : Keyspace := fun key =>
  if key = Text.utf8 "/k" then some ⟨key, 1, 2, 2, [2], 0⟩ else none

theorem conditional_puts_agree_writtenTwice :
    let s := (Store.empty.written "/k" [1]).written "/k" [2]
    compareRevisions writtenTwice (compareFor "/k" (.unchanged 2)) = true ∧
      (∃ s', s.put "/k" [3] (some (.unchanged 2)) = .ok s') ∧
      compareRevisions writtenTwice (compareFor "/k" (.unchanged (2 ^ 64 - 1))) = false := by
  intro s
  have hfound {key kv} (hkv : writtenTwice key = some kv) :
      kv.createRevision = 1 ∧ kv.modRevision = 2 := by
    unfold writtenTwice at hkv
    split at hkv <;> cases hkv
    exact ⟨rfl, rfl⟩
  have hnumbered : writtenTwice.Numbered := by
    constructor <;> intro key kv hkv
    · rw [(hfound hkv).1]
      decide
    · rw [(hfound hkv).1, (hfound hkv).2]
      decide
  have hsame : s.index.get? "/k" = (writtenTwice (Text.utf8 "/k")).map KeyValue.record := by
    decide +kernel
  have hagree (n : Nat) (hn : (Condition.unchanged n).Fits) :=
    (conditional_puts_agree comparesRevisions hnumbered rfl hsame [3] hn).2
  have hput : ∃ s', s.put "/k" [3] (some (.unchanged 2)) = .ok s' :=
    ⟨_, Store.put_eq_ok.2 ⟨rfl, by decide +kernel, rfl⟩⟩
  refine ⟨(hagree 2 (by show (2 : Nat) < _; omega)).2 (.inl hput), hput, ?_⟩
  rw [Bool.eq_false_iff]
  intro hholds
  rcases (hagree _ (by show (_ : Nat) < _; omega)).1 hholds with ⟨s', hs'⟩ | ⟨hcondition, -⟩
  · exact absurd (Store.put_eq_ok.1 hs').2.1 (by decide +kernel)
  · cases hcondition

/-- To a server a key that is absent is unchanged since revision zero; to the store in memory, which
asks for the key to exist, it is not. -/
theorem unchanged_zero_of_absent :
    ComparesRevisions compareRevisions ∧
      compareRevisions (fun _ => none) (compareFor "/k" (.unchanged 0)) = true ∧
      Store.empty.put "/k" [118] (some (.unchanged 0)) = .error (.preconditionFailed "/k") :=
  ⟨comparesRevisions, by decide, rfl⟩

end Etcd

end GatewayStore
