import Albus.Core.CredentialRoot

/-! # What flattening writes under a name

    Flattening writes every scalar of an object under the joined names of its path.
    Two paths may have one joined name, and then the last text stays: `written` is
    that text, and the flattened object is read back from it
    (`flattenObject_lookup`).

    The metadata of a credential is flattened with the subject, as one property of
    it.  Dates are scalars; the issuer and the type are objects, whose two scalars
    have longer names (`written_metaProps_hashed`). -/

namespace Albus.Core

/-! ## The last text under a name -/

mutual

/-- The last text that the value of the property `k` writes under `name`. -/
def JsValue.written (name k : String) : JsValue → Option String
  | .scalar text => if k = name then some text else none
  | .null => none
  | .object props => props.written name k

/-- The last text that the properties write under `name`. -/
def JsProps.written (name parentKey : String) : JsProps → Option String
  | .nil => none
  | .cons key value rest =>
    (rest.written name parentKey).or
      (value.written name (if parentKey = "" then key else parentKey ++ "." ++ key))

end

theorem lookup_replace (res : List (String × String)) (name key value : String) :
    (res.map fun p => if p.1 = key then (key, value) else p).lookup name
      = if key = name ∧ key ∈ res.map Prod.fst then some value else res.lookup name := by
  induction res with
  | nil => simp
  | cons p res ih =>
      rw [List.map_cons, List.lookup_cons, ih, List.lookup_cons]
      by_cases hpk : p.1 = key
      · rw [if_pos hpk]
        by_cases hkn : key = name
        · simp [hkn, hpk]
        · have hne : (name == key) = false := beq_eq_false_iff_ne.mpr (Ne.symm hkn)
          simp [hkn, hpk, hne]
      · rw [if_neg hpk]
        by_cases hkn : key = name
        · have hne : (name == p.1) = false :=
            beq_eq_false_iff_ne.mpr fun heq => hpk (heq.symm.trans hkn.symm)
          have hmem : key ∈ (p :: res).map Prod.fst ↔ key ∈ res.map Prod.fst := by
            rw [List.map_cons, List.mem_cons, or_iff_right (Ne.symm hpk)]
          simp only [hmem, hne]
        · simp [hkn]

/-- **ONE WRITE.** -/
theorem lookup_setProp {name : String} (hp : name ≠ "__proto__")
    (res : List (String × String)) (key value : String) :
    (setProp res key value).lookup name
      = (if key = name then some value else none).or (res.lookup name) := by
  rw [setProp]
  by_cases hproto : key = "__proto__"
  · have hkn : key ≠ name := fun heq => hp (heq.symm.trans hproto)
    rw [if_pos hproto, if_neg hkn, Option.none_or]
  rw [if_neg hproto]
  by_cases hk : key ∈ res.map Prod.fst
  · rw [if_pos hk, lookup_replace]
    by_cases hkn : key = name
    · rw [if_pos ⟨hkn, hk⟩, if_pos hkn, Option.some_or]
    · rw [if_neg fun h => hkn h.1, if_neg hkn, Option.none_or]
  rw [if_neg hk]
  -- a new name, wherever it is put
  have hnew : ∀ before after, before ++ after = res →
      (before ++ (key, value) :: after).lookup name
        = (if key = name then some value else none).or (res.lookup name) := by
    rintro before after rfl
    rw [List.lookup_append, List.lookup_append, List.lookup_cons]
    by_cases hkn : key = name
    · have hbefore : before.lookup name = none := by
        rw [List.lookup_eq_none_iff]
        intro p hpmem
        rw [bne_iff_ne]
        intro heq
        refine hk (List.mem_map.mpr ⟨p, List.mem_append_left _ hpmem, ?_⟩)
        exact heq.symm.trans hkn.symm
      simp [hbefore, hkn]
    · have hne : (name == key) = false := beq_eq_false_iff_ne.mpr (Ne.symm hkn)
      simp [hkn, hne]
  cases arrayIndex key with
  | some n => exact hnew _ _ List.takeWhile_append_dropWhile
  | none => exact hnew res [] (List.append_nil res)

/-- **A LIST OF WRITES**, under names of their own. -/
theorem lookup_foldl_setProp {name : String} (hp : name ≠ "__proto__")
    {inner : List (String × String)} (hnodup : (inner.map Prod.fst).Nodup)
    (res : List (String × String)) :
    (inner.foldl (fun res p => setProp res p.1 p.2) res).lookup name
      = (inner.lookup name).or (res.lookup name) := by
  induction inner generalizing res with
  | nil => rfl
  | cons p inner ih =>
      obtain ⟨hfresh, hinner⟩ := List.nodup_cons.mp hnodup
      rw [List.foldl_cons, ih hinner, lookup_setProp hp, List.lookup_cons]
      by_cases hpn : p.1 = name
      · have hnone : inner.lookup name = none := by
          rw [List.lookup_eq_none_iff]
          intro q hq
          rw [bne_iff_ne]
          intro heq
          exact hfresh (hpn.trans heq ▸ List.mem_map_of_mem hq)
        simp [hpn, hnone]
      · have hne : (name == p.1) = false := beq_eq_false_iff_ne.mpr (Ne.symm hpn)
        simp [hpn, hne]

mutual

theorem flattenValue_lookup {name : String} (hp : name ≠ "__proto__") {k : String}
    {res out : List (String × String)} :
    ∀ {value : JsValue}, flattenValue res k value = .ok out →
      out.lookup name = (value.written name k).or (res.lookup name)
  | .scalar text, hok => by
      rw [flattenValue] at hok
      obtain rfl := Except.ok.inj hok
      rw [lookup_setProp hp, JsValue.written]
  | .null, hok => by
      rw [flattenValue] at hok
      exact nomatch hok
  | .object props, hok => by
      rw [flattenValue] at hok
      cases hin : flattenObject k [] props with
      | error e =>
          rw [hin] at hok
          exact nomatch hok
      | ok inner =>
          rw [hin] at hok
          obtain rfl := Except.ok.inj hok
          have hempty : (([] : List (String × String)).map Prod.fst).Nodup := List.nodup_nil
          have hnodup : (inner.map Prod.fst).Nodup := nodup_flattenObject hempty hin
          rw [lookup_foldl_setProp hp hnodup, flattenObject_lookup hp hin, JsValue.written,
            List.lookup_nil, Option.or_none]

/-- **A FLATTENED OBJECT IS READ BACK** from the last texts written. -/
theorem flattenObject_lookup {name : String} (hp : name ≠ "__proto__") {parentKey : String} :
    ∀ {props : JsProps} {res out : List (String × String)},
      flattenObject parentKey res props = .ok out →
      out.lookup name = (props.written name parentKey).or (res.lookup name)
  | .nil, res, out, hok => by
      rw [flattenObject] at hok
      obtain rfl := Except.ok.inj hok
      rw [JsProps.written, Option.none_or]
  | .cons key value rest, res, out, hok => by
      rw [flattenObject] at hok
      cases hv : flattenValue res (if parentKey = "" then key
          else parentKey ++ "." ++ key) value with
      | error e =>
          simp only [hv] at hok
          exact nomatch hok
      | ok res' =>
          simp only [hv] at hok
          rw [flattenObject_lookup hp hok, flattenValue_lookup hp hv, JsProps.written,
            Option.or_assoc]

end

/-! ## One property replaced -/

namespace JsProps

/-- The properties without `key`. -/
def without (key : String) : JsProps → JsProps
  | .nil => .nil
  | .cons key' value' rest =>
    if key' = key then rest else .cons key' value' (rest.without key)

/-- The properties after `key`. -/
def after (key : String) : JsProps → JsProps
  | .nil => .nil
  | .cons key' _ rest => if key' = key then rest else rest.after key

/-- A value that writes nothing under the name is not seen there. -/
theorem written_set_of_none {name key : String} {value : JsValue}
    (h : value.written name key = none) :
    ∀ props : JsProps, (props.set key value).written name "" = (props.without key).written name ""
  | .nil => by
      simp only [set, without, written, h, if_true, Option.or_none]
  | .cons key' value' rest => by
      by_cases hk : key' = key
      · simp only [set, without, hk, if_true, written, h, Option.or_none]
      · simp only [set, without, hk, if_false, written, if_true, written_set_of_none h rest]

/-- A value that writes a text is seen unless a later property writes another. -/
theorem written_set_of_some {name key text : String} {value : JsValue}
    (h : value.written name key = some text) :
    ∀ props : JsProps, (props.set key value).written name ""
      = ((props.after key).written name "").or (some text)
  | .nil => by
      simp only [set, after, written, h, if_true]
  | .cons key' value' rest => by
      by_cases hk : key' = key
      · simp only [set, after, hk, if_true, written, h]
      · simp only [set, after, hk, if_false, written, if_true, written_set_of_some h rest,
          Option.or_assoc, Option.some_or]

end JsProps

/-! ## The metadata of a credential -/

namespace W3CCredential

variable {unixTs : String → String} {credential : W3CCredential}

/-- The text of `meta.validUntil`. -/
def validUntilTs (unixTs : String → String) (credential : W3CCredential) : String :=
  (date unixTs credential.validUntil).getD "0"

/-- The text of `meta.validFrom`. -/
def validFromTs (unixTs : String → String) (credential : W3CCredential) : String :=
  ((date unixTs credential.validFrom).or (date unixTs credential.issuanceDate)).getD "0"

/-- `credential.type.slice(-1)[0]`, as a text. -/
def lastType (credential : W3CCredential) : String :=
  credential.type.getLast?.getD "undefined"

/-- **THE ISSUER AND THE TYPE ARE LOST**: the metadata has no text under either name. -/
theorem written_metaProps_hashed {name : String} (h : name ∈ ["meta.issuer", "meta.type"]) :
    (JsValue.object (credential.metaProps unixTs)).written name "meta" = none := by
  rw [metaProps, JsValue.written]
  rcases List.mem_cons.mp h with rfl | h
  · split <;> split <;> simp [JsProps.written, JsValue.written, ClaimValue.toProps]
  · obtain rfl := List.mem_singleton.mp h
    split <;> split <;> simp [JsProps.written, JsValue.written, ClaimValue.toProps]

/-- The dates are there. -/
theorem written_metaProps_validUntil :
    (JsValue.object (credential.metaProps unixTs)).written "meta.validUntil" "meta"
      = some (credential.validUntilTs unixTs) := by
  rw [metaProps, JsValue.written]
  split <;> split <;>
    simp [JsProps.written, JsValue.written, ClaimValue.toProps, validUntilTs]

theorem written_metaProps_validFrom :
    (JsValue.object (credential.metaProps unixTs)).written "meta.validFrom" "meta"
      = some (credential.validFromTs unixTs) := by
  rw [metaProps, JsValue.written]
  split <;> split <;>
    simp [JsProps.written, JsValue.written, ClaimValue.toProps, validFromTs]

/-- A claim of a credential is the text written last under its name. -/
theorem claims_lookup {claims : List (String × String)}
    (h : credential.claims unixTs = .ok claims) {name : String}
    (hp : name ≠ "__proto__") :
    claims.lookup name = (credential.credentialSubject.set "meta"
      (.object (credential.metaProps unixTs))).written name "" := by
  rw [flattenObject_lookup hp h, List.lookup_nil, Option.or_none]

end W3CCredential

end Albus.Core
