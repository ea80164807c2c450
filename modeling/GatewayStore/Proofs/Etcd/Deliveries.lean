import GatewayStore.Etcd.Exchange
import Mathlib.Data.List.Forall2

/-
  What a watch of the server delivers. A response ends the watch (`WatchResponse.Ends`), has no events,
  or tells of changes (`WatchResponse.Tells`), and its translation says which (`translate_cases`). If no
  response ends the watch, its close does, for a reason of its own (`Status.Closes`). So what is
  delivered are the changes of the responses before the first one that ends the watch, a batch for each
  response with events, and then one failure (`delivered_exact`).
-/

namespace GatewayStore.Etcd

/-! ## What events and responses say -/

/-- The change that an event with a key tells of. The revision of the change is never negative. -/
def WatchEvent.Tells (e : WatchEvent) (told : Event) : Prop :=
  ∃ kv, e.kv = some kv ∧ Text.utf8 told.key = kv.key ∧
    told.change = (if e.type = 1 then .delete else .put kv.value) ∧
    (told.revision : Int) = max kv.modRevision.toInt 0

/-- An event whose key is no text. -/
def WatchEvent.IsUnreadable (e : WatchEvent) : Prop :=
  ∃ kv, e.kv = some kv ∧ ∀ key, Text.utf8 key ≠ kv.key

/-- The changes that a response tells of: those of all its events with a key, in order. -/
def WatchResponse.Tells (r : WatchResponse) (told : List Event) : Prop :=
  List.Forall₂ WatchEvent.Tells (r.events.filter fun e => e.kv.isSome) told

/-- How a response ends a watch: a compaction counts before a cancellation, and this before a key that
is no text. -/
inductive WatchResponse.Ends (start : Nat) (r : WatchResponse) : Failure → Prop where
  | compacted (hcompacted : 0 < r.compactRevision.toInt) :
    Ends start r (.streamCompacted start r.compactRevision.toInt.toNat)
  | canceled (outage : Outage) (hkept : r.compactRevision.toInt ≤ 0) (hcanceled : r.canceled = true)
    (htext : outage.message = "watch canceled: " ++ r.cancelReason) :
    Ends start r (.storeUnavailable outage)
  | unreadable (hkept : r.compactRevision.toInt ≤ 0) (hgoes : r.canceled = false)
    (hkey : ∃ e ∈ r.events, e.IsUnreadable) : Ends start r (.codec .keyNotText)

/-- How the close of a watch ends it. A close without an error says no more than that the server closed
the stream. A status that finds fault with the request gives its own text, and every other status its
code and its text. -/
inductive Status.Closes (status : Status) : Failure → Prop where
  | finished (outage : Outage) (hcode : status.code = .ok)
    (htext : outage.message = "watch stream closed by server") :
    Closes status (.storeUnavailable outage)
  | faulted (cause : Rejection)
    (hcode : status.code = .invalidArgument ∨ status.code = .failedPrecondition)
    (htext : cause.message = status.message) : Closes status (.validation cause)
  | broken (outage : Outage)
    (hcode : status.code ∉ [.ok, .invalidArgument, .failedPrecondition])
    (htext : outage.message = status.code.name ++ ": " ++ status.message) :
    Closes status (.storeUnavailable outage)

/-! ## Events -/

theorem revisionOf_eq (i : Int64) : (revisionOf i : Int) = max i.toInt 0 := Int.toNat_eq_max _

/-- An event without a key means nothing, one with a key that is no text is a failure, and every other
one means the change that it tells of. -/
theorem eventOf_cases (e : WatchEvent) : (e.kv = none ∧ eventOf e = .ok none) ∨
    (∃ told, e.Tells told ∧ eventOf e = .ok (some told)) ∨
    (e.IsUnreadable ∧ eventOf e = .error (.codec .keyNotText)) := by
  cases hkv : e.kv with
  | none => exact .inl ⟨rfl, by rw [eventOf, hkv]⟩
  | some kv =>
    right
    cases hkey : Text.ofUtf8? kv.key with
    | none =>
      refine .inr ⟨⟨kv, hkv, fun key heq => ?_⟩, by rw [eventOf, hkv]; simp only [hkey]⟩
      rw [← heq, Text.ofUtf8?_utf8] at hkey
      cases hkey
    | some key =>
      let change : Change := if e.type = WatchEvent.deleteType then .delete else .put kv.value
      refine .inl ⟨⟨key, change, revisionOf kv.modRevision⟩,
        ⟨kv, hkv, Text.utf8_of_ofUtf8? hkey, rfl, revisionOf_eq _⟩, ?_⟩
      rw [eventOf, hkv]
      simp only [hkey]
      rfl

theorem WatchEvent.Tells.isSome_kv {e : WatchEvent} {told : Event} (h : e.Tells told) :
    e.kv.isSome = true := by
  obtain ⟨kv, hkv, -⟩ := h
  rw [hkv]
  rfl

theorem WatchEvent.Tells.not_isUnreadable {e : WatchEvent} {told : Event} (h : e.Tells told) :
    ¬ e.IsUnreadable := by
  obtain ⟨kv, hkv, hkey, -⟩ := h
  rintro ⟨kv', hkv', hnone⟩
  rw [hkv] at hkv'
  cases hkv'
  exact hnone told.key hkey

theorem WatchEvent.not_isUnreadable_of_kv_eq_none {e : WatchEvent} (h : e.kv = none) :
    ¬ e.IsUnreadable := by
  rintro ⟨kv, hkv, -⟩
  rw [h] at hkv
  cases hkv

/-- The events of a response are read to the end, unless one has a key that is no text. -/
theorem mapM_eventOf_cases (events : List WatchEvent) :
    ((∃ e ∈ events, e.IsUnreadable) ∧ events.mapM eventOf = .error (.codec .keyNotText)) ∨
    ((∀ e ∈ events, ¬ e.IsUnreadable) ∧ ∃ read, events.mapM eventOf = .ok read ∧
      List.Forall₂ WatchEvent.Tells (events.filter fun e => e.kv.isSome) (read.filterMap id)) := by
  induction events with
  | nil => exact .inr ⟨by simp, [], rfl, .nil⟩
  | cons e events ih =>
    rw [List.mapM_cons]
    rcases eventOf_cases e with ⟨hkv, he⟩ | ⟨told, htold, he⟩ | ⟨hunreadable, he⟩
    · have hnot := WatchEvent.not_isUnreadable_of_kv_eq_none hkv
      rcases ih with ⟨⟨e', hmem, hbad⟩, hmap⟩ | ⟨hgood, read, hmap, htells⟩
      · exact .inl ⟨⟨e', .tail _ hmem, hbad⟩, by rw [he, hmap]; rfl⟩
      · refine .inr ⟨List.forall_mem_cons.mpr ⟨hnot, hgood⟩, none :: read, by rw [he, hmap]; rfl, ?_⟩
        simpa [hkv] using htells
    · rcases ih with ⟨⟨e', hmem, hbad⟩, hmap⟩ | ⟨hgood, read, hmap, htells⟩
      · exact .inl ⟨⟨e', .tail _ hmem, hbad⟩, by rw [he, hmap]; rfl⟩
      · refine .inr ⟨List.forall_mem_cons.mpr ⟨htold.not_isUnreadable, hgood⟩, some told :: read,
          by rw [he, hmap]; rfl, ?_⟩
        simpa [htold.isSome_kv] using htells.cons htold
    · exact .inl ⟨⟨e, .head _, hunreadable⟩, by rw [he]; rfl⟩

/-! ## Responses -/

/-- A response that ends the watch is a failure; of the others, one without events is nothing, and one
with events is one batch of all that it tells of. -/
theorem translate_cases (start : Nat) (r : WatchResponse) :
    (∃ cause, r.Ends start cause ∧ translate start r = some (.failed cause)) ∨
    ((∀ cause, ¬ r.Ends start cause) ∧
      (r.events = [] ∧ translate start r = none ∨
        r.events ≠ [] ∧ ∃ told, r.Tells told ∧ translate start r = some (.batch told))) := by
  have hpositive : 0 < r.compactRevision ↔ 0 < r.compactRevision.toInt := Int64.lt_iff_toInt_lt
  by_cases hcompacted : 0 < r.compactRevision
  · exact .inl ⟨_, .compacted (hpositive.mp hcompacted), by rw [translate, if_pos hcompacted]; rfl⟩
  have hkept : r.compactRevision.toInt ≤ 0 := Int.not_lt.mp (mt hpositive.mpr hcompacted)
  by_cases hcanceled : r.canceled = true
  · exact .inl ⟨_, .canceled (.watchCanceled r.cancelReason) hkept hcanceled rfl,
      by rw [translate, if_neg hcompacted, if_pos hcanceled]⟩
  have hgoes : r.canceled = false := by simpa using hcanceled
  rcases mapM_eventOf_cases r.events with ⟨hbad, hmap⟩ | ⟨hgood, read, hmap, htells⟩
  · have hsome : ¬ r.events.isEmpty = true := by
      obtain ⟨e, hmem, -⟩ := hbad
      simpa using List.ne_nil_of_mem hmem
    refine .inl ⟨_, .unreadable hkept hgoes hbad, ?_⟩
    simp only [translate, if_neg hcompacted, if_neg hcanceled, if_neg hsome, hmap]
  right
  constructor
  · rintro _ (hpos | ⟨_, -, h, -⟩ | ⟨-, -, e, hmem, hbad⟩)
    · omega
    · exact hcanceled h
    · exact hgood e hmem hbad
  · by_cases hevents : r.events = []
    · refine .inl ⟨hevents, ?_⟩
      rw [translate, if_neg hcompacted, if_neg hcanceled, if_pos (by simp [hevents])]
    · refine .inr ⟨hevents, _, htells, ?_⟩
      simp only [translate, if_neg hcompacted, if_neg hcanceled, hmap]
      rw [if_neg (by simpa using hevents)]

/-! ## Closes -/

theorem closes_endingOf (status : Status) : status.Closes (endingOf status) := by
  unfold endingOf
  split
  · next hcode => exact .finished _ hcode rfl
  · next hcode =>
    unfold Status.failure
    split
    · next hinvalid => exact .faulted _ (.inl hinvalid) rfl
    · next hfailed => exact .faulted _ (.inr hfailed) rfl
    · next hinvalid hfailed =>
      exact .broken _ (by simpa [hcode] using ⟨hinvalid, hfailed⟩) rfl

/-! ## Watches -/

/-- What is delivered of the responses to a watch are the batches of those before the first one that
ends it, all the changes of a response in one batch, and then the one failure at which it ends, be it
by that response or, if there is none, by the close. -/
theorem delivered_exact (start : Nat) (status : Status) (responses : List WatchResponse) :
    ∃ before batches cause, (∀ r ∈ before, ∀ c, ¬ r.Ends start c) ∧
      List.Forall₂ WatchResponse.Tells (before.filter fun r => r.events ≠ []) batches ∧
      (responses = before ∧ status.Closes cause ∨
        ∃ r rest, responses = before ++ r :: rest ∧ r.Ends start cause) ∧
      delivered start status responses = batches.map .batch ++ [.failed cause] := by
  induction responses with
  | nil => exact ⟨[], [], endingOf status, by simp, .nil, .inl ⟨rfl, closes_endingOf status⟩, rfl⟩
  | cons r responses ih =>
    obtain ⟨before, batches, cause, hgo, hbatches, hend, hdelivered⟩ := ih
    rcases translate_cases start r with ⟨cause', hends, htranslate⟩ | ⟨hgoes, hr⟩
    · exact ⟨[], [], cause', by simp, .nil, .inr ⟨r, responses, rfl, hends⟩,
        by simp only [delivered, htranslate]; rfl⟩
    have hend' : r :: responses = r :: before ∧ status.Closes cause ∨
        ∃ r' rest, r :: responses = r :: before ++ r' :: rest ∧ r'.Ends start cause := by
      rcases hend with ⟨rfl, hcause⟩ | ⟨r', rest, rfl, hends⟩
      · exact .inl ⟨rfl, hcause⟩
      · exact .inr ⟨r', rest, rfl, hends⟩
    have hgo' := List.forall_mem_cons.mpr ⟨hgoes, hgo⟩
    rcases hr with ⟨hevents, htranslate⟩ | ⟨hevents, told, htells, htranslate⟩
    · refine ⟨r :: before, batches, cause, hgo', ?_, hend', ?_⟩
      · simpa [hevents] using hbatches
      · simp only [delivered, htranslate, hdelivered]
    · refine ⟨r :: before, told :: batches, cause, hgo', ?_, hend', ?_⟩
      · simpa [hevents] using hbatches.cons htells
      · simp only [delivered, htranslate, hdelivered, List.map_cons, List.cons_append]

/-- A compaction that also cancels the watch is a compaction, and nothing is delivered after it. -/
example : delivered 3 ⟨.unavailable, "gone"⟩
    [⟨none, 0, true, false, 0, "", []⟩,
      ⟨none, 0, false, false, 0, "", [⟨1, some ⟨[47], 0, -4, 0, [], 0⟩, none⟩, ⟨0, none, none⟩]⟩,
      ⟨none, 0, false, true, 9, "compacted", []⟩, ⟨none, 0, false, true, 0, "", []⟩] =
    [.batch [⟨"/", .delete, 0⟩], .failed (.streamCompacted 3 9)] := by
  decide +kernel

end GatewayStore.Etcd
