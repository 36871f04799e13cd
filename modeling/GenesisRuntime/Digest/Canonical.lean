/-
  GenesisRuntime.Digest.Canonical

  What a canonical digest determines.  Where neither the hash nor the JSON text
  identifies different inputs, two values with one digest serialize to values that
  agree up to the order of object members; a struct then agrees field by field.
-/

import GenesisRuntime.Digest

namespace GenesisRuntime

-- ============================================================================
-- Framing
-- ============================================================================

theorem beBytes_length (width n : Nat) : (beBytes width n).length = width := by
  induction width generalizing n with
  | zero => rfl
  | succ width ih => rw [beBytes, List.length_append, ih, List.length_singleton]

/-- Under one domain, frames tell their contents apart. -/
theorem frame_injective (domain : String) : Function.Injective (frame domain) := by
  intro xs ys h
  unfold frame at h
  have hlength : (beBytes 4 domain.utf8ByteSize ++ textBytes domain ++ beBytes 8 xs.length).length
      = (beBytes 4 domain.utf8ByteSize ++ textBytes domain ++ beBytes 8 ys.length).length := by
    simp only [List.length_append, beBytes_length]
  exact (List.append_inj h hlength).2

-- ============================================================================
-- Values up to the order of members
-- ============================================================================

/-- Two serializations succeed, with values that agree up to the order of members. -/
def SameValue (x y : Except String Json) : Prop :=
  ∃ v w, x = .ok v ∧ y = .ok w ∧ canonicalizeJson v = canonicalizeJson w

/-- Serialization tells the values of a type apart. -/
def Distinguishes (α : Type) [Serialize α] : Prop :=
  ∀ a b : α, SameValue (toValue a) (toValue b) → a = b

/-- Objects with the same canonical form answer lookups alike. -/
theorem lookup_of_canonical {es es' : List (String × Json)} (hnd : (es.map Prod.fst).Nodup)
    (hnd' : (es'.map Prod.fst).Nodup)
    (h : canonicalizeJson (.object es) = canonicalizeJson (.object es')) (name : String) :
    (Json.lookup name es).map canonicalizeJson = (Json.lookup name es').map canonicalizeJson := by
  rw [canonicalizeJson_object, canonicalizeJson_object] at h
  have hlookup := congrArg (Json.lookup name) (Json.object.inj h)
  rw [Json.lookup_map_snd, Json.lookup_map_snd,
    ← Json.lookup_perm hnd (sortEntries_perm es).symm,
    ← Json.lookup_perm hnd' (sortEntries_perm es').symm] at hlookup
  exact hlookup

/-- What a struct serializes to, field by field. -/
theorem structValue_eq_ok {fields : List (String × Except String Json)} {value : Json} :
    structValue fields = .ok value ↔ ∃ entries, value = .object entries ∧
      List.Forall₂ (fun f e => f.1 = e.1 ∧ f.2 = .ok e.2) fields entries := by
  simp only [structValue, Except.bind_eq_ok, Except.pure_eq_ok, Except.mapM_eq_ok]
  have hstep : ∀ (f : String × Except String Json) (e : String × Json),
      (∃ v, f.2 = .ok v ∧ (f.1, v) = e) ↔ f.1 = e.1 ∧ f.2 = .ok e.2 := by
    rintro ⟨name, x⟩ ⟨name', v⟩
    constructor
    · rintro ⟨v, hv, heq⟩
      cases heq
      exact ⟨rfl, hv⟩
    · rintro ⟨rfl, hv⟩
      exact ⟨v, hv, rfl⟩
  simp only [hstep]
  constructor
  · rintro ⟨entries, hentries, rfl⟩
    exact ⟨entries, rfl, hentries⟩
  · rintro ⟨entries, rfl, hentries⟩
    exact ⟨entries, hentries, rfl⟩

/-- Fields that all serialize make a value. -/
theorem exists_structValue {fields : List (String × Except String Json)}
    (h : ∀ field ∈ fields, ∃ value, field.2 = .ok value) :
    ∃ value, structValue fields = .ok value := by
  have hentry : ∀ field ∈ fields, ∃ entry : String × Json,
      (do return (field.1, ← field.2) : Except String (String × Json)) = .ok entry := by
    intro field hfield
    obtain ⟨value, hvalue⟩ := h field hfield
    exact ⟨(field.1, value), by rw [hvalue]; rfl⟩
  obtain ⟨entries, hentries⟩ := Except.exists_mapM_eq_ok hentry
  exact ⟨.object entries, by rw [structValue, hentries]; rfl⟩

theorem exists_toValue_list {α : Type} [Serialize α] (as : List α)
    (h : ∀ a ∈ as, ∃ value, toValue a = .ok value) : ∃ value, toValue as = .ok value := by
  obtain ⟨values, hvalues⟩ := Except.exists_mapM_eq_ok h
  exact ⟨.array values, Except.bind_eq_ok.mpr ⟨values, hvalues, rfl⟩⟩

theorem names_of_forall₂ {fs : List (String × Except String Json)} {es : List (String × Json)}
    (h : List.Forall₂ (fun f e => f.1 = e.1 ∧ f.2 = .ok e.2) fs es) :
    fs.map Prod.fst = es.map Prod.fst := by
  induction h with
  | nil => rfl
  | cons hfe _ ih => rw [List.map_cons, List.map_cons, hfe.1, ih]

/-- Structs with the same field names that agree as values agree field by field. -/
theorem SameValue.fields {fs gs : List (String × Except String Json)}
    (h : SameValue (structValue fs) (structValue gs))
    (hnames : fs.map Prod.fst = gs.map Prod.fst) (hnd : (fs.map Prod.fst).Nodup) :
    List.Forall₂ (fun f g => SameValue f.2 g.2) fs gs := by
  obtain ⟨v, w, hv, hw, hcanonical⟩ := h
  obtain ⟨es, rfl, hes⟩ := structValue_eq_ok.mp hv
  obtain ⟨es', rfl, hes'⟩ := structValue_eq_ok.mp hw
  have hes_nodup : (es.map Prod.fst).Nodup := names_of_forall₂ hes ▸ hnd
  have hes'_nodup : (es'.map Prod.fst).Nodup := names_of_forall₂ hes' ▸ hnames ▸ hnd
  have hlength : fs.length = gs.length := by simpa using congrArg List.length hnames
  refine List.forall₂_iff_get.mpr ⟨hlength, fun i hi hi' => ?_⟩
  -- the two entries stand at one position, so they have one name
  have hie : i < es.length := hes.length_eq ▸ hi
  have hie' : i < es'.length := hes'.length_eq ▸ hi'
  have hfe := (List.forall₂_iff_get.mp hes).2 i hi hie
  have hge := (List.forall₂_iff_get.mp hes').2 i hi' hie'
  have hname : (fs.get ⟨i, hi⟩).1 = (gs.get ⟨i, hi'⟩).1 := by
    have hget := congrArg (fun names => names[i]?) hnames
    simpa [hi, hi'] using hget
  rw [hfe.1, hge.1] at hname
  have hlookup := lookup_of_canonical hes_nodup hes'_nodup hcanonical (es.get ⟨i, hie⟩).1
  rw [Json.lookup_of_mem hes_nodup (List.get_mem es ⟨i, hie⟩), hname,
    Json.lookup_of_mem hes'_nodup (List.get_mem es' ⟨i, hie'⟩)] at hlookup
  exact ⟨_, _, hfe.2, hge.2, Option.some.inj hlookup⟩

-- ============================================================================
-- Types whose values are told apart
-- ============================================================================

theorem distinguishes_string : Distinguishes String := by
  rintro a b ⟨v, w, hv, hw, h⟩
  cases hv
  cases hw
  simpa using h

theorem distinguishes_uint8 : Distinguishes UInt8 := by
  rintro a b ⟨v, w, hv, hw, h⟩
  cases hv
  cases hw
  simpa [UInt8.toNat_inj] using h

theorem distinguishes_uint32 : Distinguishes UInt32 := by
  rintro a b ⟨v, w, hv, hw, h⟩
  cases hv
  cases hw
  simpa [UInt32.toNat_inj] using h

theorem distinguishes_uint64 : Distinguishes UInt64 := by
  rintro a b ⟨v, w, hv, hw, h⟩
  cases hv
  cases hw
  simpa [UInt64.toNat_inj] using h

theorem distinguishes_identifier (kind : String) : Distinguishes (Identifier kind) :=
  fun _ _ h => Identifier.value_injective (distinguishes_string _ _ h)

/-- A missing identifier does not serialize like a present one. -/
theorem toValue_identifier_ne_null {kind : String} (id : Identifier kind) (value : Json)
    (h : toValue id = .ok value) : canonicalizeJson value ≠ .null := by
  cases h
  simp

section
variable {α : Type} [Serialize α]

/-- Lists that agree as values agree member by member. -/
theorem SameValue.list {β : Type} [Serialize β] {as : List α} {bs : List β}
    (h : SameValue (toValue as) (toValue bs)) :
    List.Forall₂ (fun a b => SameValue (toValue a) (toValue b)) as bs := by
  obtain ⟨v, w, hv, hw, hcanonical⟩ := h
  obtain ⟨vs, hvs, hv'⟩ := Except.bind_eq_ok.mp hv
  obtain ⟨ws, hws, hw'⟩ := Except.bind_eq_ok.mp hw
  cases hv'
  cases hw'
  rw [canonicalizeJson_array, canonicalizeJson_array, Json.array.injEq] at hcanonical
  rw [Except.mapM_eq_ok] at hvs hws
  clear hv hw
  induction hvs generalizing bs ws with
  | nil =>
      cases hws with
      | nil => exact .nil
      | cons => cases hcanonical
  | cons hav _ ih =>
      cases hws with
      | nil => cases hcanonical
      | cons hbw hws =>
          rw [List.map_cons, List.map_cons, List.cons.injEq] at hcanonical
          exact .cons ⟨_, _, hav, hbw, hcanonical.1⟩ (ih _ hws hcanonical.2)

/-- Lists are told apart where their members are. -/
theorem Distinguishes.list (h : Distinguishes α) : Distinguishes (List α) :=
  fun _ _ hsame => List.forall₂_eq_eq_eq ▸ hsame.list.imp fun a b => h a b

/-- Options are told apart where no value serializes to `null`. -/
theorem Distinguishes.option (h : Distinguishes α)
    (hnull : ∀ a : α, ∀ v, toValue a = .ok v → canonicalizeJson v ≠ .null) :
    Distinguishes (Option α) := by
  rintro (- | a) (- | b) ⟨v, w, hv, hw, hcanonical⟩
  · rfl
  · cases hv
    rw [canonicalizeJson_null] at hcanonical
    exact absurd hcanonical.symm (hnull b w hw)
  · cases hw
    rw [canonicalizeJson_null] at hcanonical
    exact absurd hcanonical (hnull a v hv)
  · rw [h a b ⟨v, w, hv, hw, hcanonical⟩]

end

section
variable [Externals]

theorem distinguishes_digest (h : HexInjective) : Distinguishes Digest :=
  fun _ _ hsame => h (distinguishes_string _ _ hsame)

theorem distinguishes_dateTime (h : TimestampInjective) : Distinguishes DateTime :=
  fun _ _ hsame => h (distinguishes_string _ _ hsame)

theorem CapabilitySerializationInjective.distinguishes (h : CapabilitySerializationInjective) :
    Distinguishes Capability := by
  rintro a b ⟨v, w, hv, hw, hcanonical⟩
  exact h a b v w hv hw hcanonical

/-- What one digest of two values says. -/
theorem sameValue_of_canonicalDigest {α β : Type} [Serialize α] [Serialize β]
    (hcollision : CollisionFree) (htext : JsonTextInjective) {domain : String} {a : α} {b : β}
    {digest : Digest} (ha : canonicalDigest domain a = .ok digest)
    (hb : canonicalDigest domain b = .ok digest) : SameValue (toValue a) (toValue b) := by
  obtain ⟨-, v, hv, rfl⟩ := canonicalDigest_eq_ok.mp ha
  obtain ⟨-, w, hw, heq⟩ := canonicalDigest_eq_ok.mp hb
  exact ⟨v, w, hv, hw, toVec_injective htext (frame_injective domain (hcollision heq))⟩

/-- The digest of a JSON value identifies it up to the order of object members. -/
theorem canonicalDigest_json_iff (hcollision : CollisionFree) (htext : JsonTextInjective)
    {domain : String} {a b : Json} {digest digest' : Digest}
    (ha : canonicalDigest domain a = .ok digest) (hb : canonicalDigest domain b = .ok digest') :
    digest = digest' ↔ canonicalizeJson a = canonicalizeJson b := by
  constructor
  · rintro rfl
    obtain ⟨v, w, hv, hw, h⟩ := sameValue_of_canonicalDigest hcollision htext ha hb
    cases hv
    cases hw
    exact h
  · intro h
    obtain ⟨-, v, hv, rfl⟩ := canonicalDigest_eq_ok.mp ha
    obtain ⟨-, w, hw, rfl⟩ := canonicalDigest_eq_ok.mp hb
    cases hv
    cases hw
    rw [h]

end

end GenesisRuntime
