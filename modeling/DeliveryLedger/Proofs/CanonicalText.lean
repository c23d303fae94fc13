import DeliveryLedger.Proofs.DigestText
import DeliveryLedger.Proofs.JsonText
/-!
What a canonical text determines.

Two values have the same canonical text exactly if they are the same but for the order of the
keys in their objects (`Json.Agrees`).  Values that agree are one value once their keys stand
in order, and the reader takes that one value back from the text.  The bytes under a
fingerprint determine the payload text and the type name, whatever characters the name holds.
-/

namespace DeliveryLedger

/-! ### Values but for the order of their keys -/

namespace Json

/-- The same value but for the order of the keys in each object. -/
inductive Agrees : Json → Json → Prop
  | null : Agrees .null .null
  | bool (b : Bool) : Agrees (.bool b) (.bool b)
  | int (i : Int) : Agrees (.int i) (.int i)
  | float (x : Binary64) : Agrees (.float x) (.float x)
  | str (s : String) : Agrees (.str s) (.str s)
  | arr {xs ys : List Json} (hlength : xs.length = ys.length)
      (hitems : ∀ (i : Nat) (x y : Json), xs[i]? = some x → ys[i]? = some y → Agrees x y) :
      Agrees (.arr xs) (.arr ys)
  | obj {ms ns : List (String × Json)} (hkeys : (keys ms).Perm (keys ns))
      (hvalues : ∀ (k : String) (v w : Json), (k, v) ∈ ms → (k, w) ∈ ns → Agrees v w) :
      Agrees (.obj ms) (.obj ns)

theorem agrees_float_iff {x y : Binary64} : Agrees (.float x) (.float y) ↔ x = y := by
  constructor
  · intro h
    cases h
    rfl
  · rintro rfl
    exact .float x

theorem not_agrees_int_float (i : Int) (x : Binary64) : ¬ Agrees (.int i) (.float x) := by
  intro h
  cases h

theorem perm_mapValues_of_values {f : Json → Json} {ms ns : List (String × Json)}
    (hnodup : (keys ms).Nodup) (hkeys : (keys ms).Perm (keys ns))
    (hvalues : ∀ k v w, (k, v) ∈ ms → (k, w) ∈ ns → f v = f w) :
    (mapValues f ms).Perm (mapValues f ns) := by
  have hnodup' : (keys ns).Nodup := hkeys.nodup_iff.mp hnodup
  refine perm_of_member? ?_ ?_ ?_
  · rw [keys_mapValues]
    exact hnodup
  · have hlength := hkeys.length_eq
    simpa [mapValues, keys] using hlength
  · intro m hm
    obtain ⟨⟨k, v⟩, hv, rfl⟩ := List.mem_map.mp hm
    obtain ⟨⟨k', w⟩, hw, hk⟩ := List.mem_map.mp (hkeys.mem_iff.mp (mem_keys_of_mem hv))
    obtain rfl : k' = k := hk
    have hfound : member? k' ns = some w := (member?_eq_some_iff hnodup').mpr hw
    rw [member?_mapValues, hfound, hvalues k' v w hv hw]
    rfl

theorem sortKeys_eq_of_agrees {j k : Json} (h : j.Agrees k) (hkeys : j.hasDistinctKeys = true) :
    j.sortKeys = k.sortKeys := by
  induction h with
  | null => rfl
  | bool b => rfl
  | int i => rfl
  | float x => rfl
  | str s => rfl
  | @arr xs ys hlength hitems ih =>
      rw [hasDistinctKeys_arr] at hkeys
      rw [sortKeys_arr, sortKeys_arr]
      congr 1
      apply List.ext_getElem (by rw [List.length_map, List.length_map, hlength])
      intro i hx hy
      rw [List.getElem_map, List.getElem_map]
      exact ih i _ _ (List.getElem?_eq_getElem _) (List.getElem?_eq_getElem _)
        (hkeys _ (List.getElem_mem _))
  | @obj ms ns hperm hvalues ih =>
      rw [hasDistinctKeys_obj] at hkeys
      obtain ⟨hnodup, hinner⟩ := hkeys
      rw [sortKeys_obj, sortKeys_obj]
      congr 1
      apply sortMembers_eq_of_perm
      · exact perm_mapValues_of_values hnodup hperm
          fun k v w hv hw => ih k v w hv hw (hinner (k, v) hv)
      · rw [keys_mapValues]
        exact hnodup

theorem agrees_arr_of_sortKeys_eq {xs ys : List Json}
    (h : (Json.arr xs).sortKeys = (Json.arr ys).sortKeys)
    (hitems : ∀ x ∈ xs, ∀ y ∈ ys, x.sortKeys = y.sortKeys → x.Agrees y) :
    (Json.arr xs).Agrees (.arr ys) := by
  rw [sortKeys_arr, sortKeys_arr] at h
  have hmap : xs.map sortKeys = ys.map sortKeys := Json.arr.inj h
  refine .arr (by simpa using congrArg List.length hmap) ?_
  intro i x y hx hy
  have hat := congrArg (fun items : List Json => items[i]?) hmap
  simp only [List.getElem?_map, hx, hy, Option.map_some, Option.some.injEq] at hat
  exact hitems x (List.mem_of_getElem? hx) y (List.mem_of_getElem? hy) hat

theorem agrees_obj_of_sortKeys_eq {ms ns : List (String × Json)} (hnodup : (keys ns).Nodup)
    (h : (Json.obj ms).sortKeys = (Json.obj ns).sortKeys)
    (hvalues : ∀ m ∈ ms, ∀ n ∈ ns, m.2.sortKeys = n.2.sortKeys → m.2.Agrees n.2) :
    (Json.obj ms).Agrees (.obj ns) := by
  rw [sortKeys_obj, sortKeys_obj] at h
  have hsorted := Json.obj.inj h
  have hperm : (mapValues sortKeys ms).Perm (mapValues sortKeys ns) :=
    (perm_sortMembers _).symm.trans (hsorted ▸ perm_sortMembers _)
  refine .obj ?_ ?_
  · have hkeys : (keys (mapValues sortKeys ms)).Perm (keys (mapValues sortKeys ns)) :=
      hperm.map Prod.fst
    rwa [keys_mapValues, keys_mapValues] at hkeys
  · intro k v w hv hw
    -- Both values stand under one key among the sorted members, where each key stands once.
    have hv' : (k, v.sortKeys) ∈ mapValues sortKeys ns :=
      hperm.mem_iff.mp (mem_mapValues_of_mem hv)
    have hw' : (k, w.sortKeys) ∈ mapValues sortKeys ns := mem_mapValues_of_mem hw
    have hsame := eq_of_mem_of_key_eq (by rwa [keys_mapValues]) hv' hw' rfl
    exact hvalues (k, v) hv (k, w) hw (Prod.mk.inj hsame).2

theorem agrees_of_sortKeys_eq {j k : Json} (h : j.sortKeys = k.sortKeys)
    (hkeys : k.hasDistinctKeys = true) : j.Agrees k := by
  induction j using Json.induction generalizing k with
  | null =>
      cases k <;> simp only [sortKeys, reduceCtorEq] at h
      exact .null
  | bool b =>
      cases k <;> simp only [sortKeys, reduceCtorEq, Json.bool.injEq] at h
      exact h ▸ .bool b
  | int i =>
      cases k <;> simp only [sortKeys, reduceCtorEq, Json.int.injEq] at h
      exact h ▸ .int i
  | float x =>
      cases k <;> simp only [sortKeys, reduceCtorEq, Json.float.injEq] at h
      exact h ▸ .float x
  | str s =>
      cases k <;> simp only [sortKeys, reduceCtorEq, Json.str.injEq] at h
      exact h ▸ .str s
  | arr xs ih =>
      cases k with
      | arr ys =>
          rw [hasDistinctKeys_arr] at hkeys
          refine agrees_arr_of_sortKeys_eq h ?_
          intro x hx y hy hxy
          exact ih x hx hxy (hkeys y hy)
      | _ => simp only [sortKeys, reduceCtorEq] at h
  | obj ms ih =>
      cases k with
      | obj ns =>
          rw [hasDistinctKeys_obj] at hkeys
          refine agrees_obj_of_sortKeys_eq hkeys.1 h ?_
          intro m hm n hn hmn
          exact ih m hm hmn (hkeys.2 n hn)
      | _ => simp only [sortKeys, reduceCtorEq] at h

theorem sortKeys_eq_iff {j k : Json} (hj : j.hasDistinctKeys = true)
    (hk : k.hasDistinctKeys = true) : j.sortKeys = k.sortKeys ↔ j.Agrees k :=
  ⟨fun h => agrees_of_sortKeys_eq h hk, fun h => sortKeys_eq_of_agrees h hj⟩

/-- Values have one canonical text exactly if they are the same but for the order of keys. -/
theorem canonical_eq_iff {j k : Json} (hj : j.hasDistinctKeys = true) (hfinite : j.isFinite = true)
    (hk : k.hasDistinctKeys = true) (hfinite' : k.isFinite = true) :
    j.canonical = k.canonical ↔ j.Agrees k := by
  rw [← sortKeys_eq_iff hj hk]
  constructor
  · intro h
    have hread : parse? j.canonical = parse? k.canonical := by rw [h]
    rw [parse?_canonical hj hfinite, parse?_canonical hk hfinite'] at hread
    exact Option.some.inj hread
  · intro h
    unfold canonical
    rw [h]

end Json

/-! ### Payloads under any type name -/

theorem toList_byteArray (bytes : ByteArray) : bytes.toList = bytes.data.toList := by
  have hloop : ∀ i read,
      ByteArray.toList.loop bytes i read = read.reverse ++ bytes.data.toList.drop i := by
    intro i read
    fun_induction ByteArray.toList.loop bytes i read with
    | case1 i read hi ih =>
        have hlength : i < bytes.data.toList.length := hi
        have hbyte : bytes.get! i = bytes.data.toList[i] := getElem!_pos bytes.data i hi
        rw [ih, List.drop_eq_getElem_cons hlength, hbyte, List.reverse_cons, List.append_assoc]
        rfl
    | case2 i read hi =>
        rw [List.drop_eq_nil_of_le (Nat.not_lt.mp hi), List.append_nil]
  exact hloop 0 []

/-- The bytes of a text. -/
def utf8 (s : String) : List UInt8 := s.toUTF8.toList

theorem utf8_append (s t : String) : utf8 (s ++ t) = utf8 s ++ utf8 t := by
  unfold utf8
  have hbytes : (s ++ t).toUTF8 = s.toUTF8 ++ t.toUTF8 := String.toByteArray_append
  rw [toList_byteArray, toList_byteArray, toList_byteArray, hbytes, ByteArray.data_append,
    Array.toList_append]

theorem utf8_injective {s t : String} (h : utf8 s = utf8 t) : s = t := by
  unfold utf8 at h
  rw [toList_byteArray, toList_byteArray] at h
  exact String.toByteArray_inj.mp (ByteArray.ext (Array.toList_inj.mp h))

namespace Payload

/-- The bytes that go into a fingerprint: the type name, a line break and the text. -/
def digestBytes (p : Payload) : List UInt8 := utf8 p.occurrenceType ++ utf8 "\n" ++ utf8 p.text

theorem digestBytes_eq (p : Payload) : p.digestBytes = utf8 p.digestText := by
  unfold digestBytes digestText
  rw [utf8_append, utf8_append]

theorem fingerprint_eq_hex (p : Payload) : p.fingerprint = Sha256.hex p.digestBytes := by
  rw [digestBytes_eq]
  rfl

end Payload

/-! ### Content -/

/-- Contents with the same bytes under their fingerprints have the same type name and text, and
values with the same canonical text differ in the order of keys at most: a whole number is no
floating-point number, and zero has two signs. -/
theorem canonical_content_unambiguous :
    (∀ p : Payload, p.fingerprint = Sha256.hex p.digestBytes) ∧
    (∀ (cat cat' : Catalogue) (o o' : Occurrence) (name name' : String),
      Payload.digestBytes ⟨name, (Payload.ofOccurrence cat o).text⟩ =
          Payload.digestBytes ⟨name', (Payload.ofOccurrence cat' o').text⟩ →
        name = name' ∧ (Payload.ofOccurrence cat o).text = (Payload.ofOccurrence cat' o').text) ∧
    (∀ j k : Json, j.hasDistinctKeys = true → j.isFinite = true → k.hasDistinctKeys = true →
      k.isFinite = true → (j.canonical = k.canonical ↔ j.Agrees k)) ∧
    (∀ (i : Int) (x : Binary64), ¬ (Json.int i).Agrees (.float x)) ∧
    ∀ x y : Binary64, (Json.float x).Agrees (.float y) ↔ x = y := by
  refine ⟨Payload.fingerprint_eq_hex, ?_, ?_, Json.not_agrees_int_float,
    fun _ _ => Json.agrees_float_iff⟩
  · intro cat cat' o o' name name' h
    rw [Payload.digestBytes_eq, Payload.digestBytes_eq] at h
    have hsame : Payload.mk name (Payload.ofOccurrence cat o).text =
        ⟨name', (Payload.ofOccurrence cat' o').text⟩ :=
      Payload.eq_of_digestText_eq (Payload.printable_text cat o)
        (Payload.printable_text cat' o') (utf8_injective h)
    exact Payload.mk.inj hsame
  · intro j k hj hfinite hk hfinite'
    exact Json.canonical_eq_iff hj hfinite hk hfinite'

/-- Turned keys leave the text as it is; the text tells `1` from `1.0` and `0.0` from `-0.0`. -/
theorem canonical_content_unambiguous_turned :
    Json.canonical (.obj [("to", .str "a"), ("at", .int 1)]) =
        Json.canonical (.obj [("at", .int 1), ("to", .str "a")]) ∧
      Json.canonical (.int 1) ≠ Json.canonical (.float (Binary64.ofInt 1)) ∧
      Json.canonical (.float ⟨false, 0⟩) ≠ Json.canonical (.float ⟨true, 0⟩) := by
  obtain ⟨-, -, hvalues, hkinds, hfloats⟩ := canonical_content_unambiguous
  refine ⟨(hvalues _ _ (by decide) (by decide) (by decide) (by decide)).mpr ?_, ?_, ?_⟩
  · refine .obj (.swap _ _ _) ?_
    intro k v w hv hw
    simp only [List.mem_cons, Prod.mk.injEq, List.not_mem_nil, or_false] at hv hw
    rcases hv with ⟨rfl, rfl⟩ | ⟨rfl, rfl⟩
    · obtain rfl : w = .str "a" := by simpa using hw
      exact .str "a"
    · obtain rfl : w = .int 1 := by simpa using hw
      exact .int 1
  · intro h
    exact hkinds _ _ ((hvalues _ _ (by decide) (by decide) (by decide) (by decide)).mp h)
  · intro h
    have hsame := (hfloats _ _).mp
      ((hvalues _ _ (by decide) (by decide) (by decide) (by decide)).mp h)
    exact absurd hsame (by decide)

end DeliveryLedger
