import PdfSchema.Document.Encoding
import PdfSchema.Proofs.Document.Place
import PdfSchema.Proofs.Text.Numeral
import PdfSchema.Proofs.Text.Split
import PdfSchema.Proofs.Token.Shape

namespace PdfSchema

theorem ObjectId.parse?_render (id : ObjectId) : parse? id.render = some id := by
  have hblank (n : ℕ) : ∀ d ∈ Nat.toDigits 10 n, Text.isBlank d = false :=
    fun d hd ↦ Token.IsVisible.not_isBlank <| Token.isVisible_of_isDigit <|
      Nat.isDigit_of_mem_toDigits (by decide) (by decide) hd
  have hwords : Text.words id.render.toList =
      [Nat.toDigits 10 id.number.toNat, Nat.toDigits 10 id.generation.toNat] := by
    have htext : id.render.toList =
        Nat.toDigits 10 id.number.toNat ++ ' ' :: Nat.toDigits 10 id.generation.toNat := by
      simp [render]
    rw [Text.words, htext, Text.splitBy_eq_splitOnP,
      List.splitOnP_append_cons_of_forall_mem (hblank _) ' ' (by decide),
      List.splitOnP_eq_singleton (hblank _)]
    simp [Nat.toDigits_ne_nil]
  have hnumber : id.number.toNat < UInt32.size := id.number.toNat_lt
  have hgeneration : id.generation.toNat < UInt16.size := id.generation.toNat_lt
  rw [parse?, hwords]
  simp [ofWords?, Text.natural?_toDigits hnumber, Text.natural?_toDigits hgeneration]

namespace PdfValue

def markers : List String := ["$ref", "$stream", "$length"]

/-- The value itself, without those inside it, is not taken for another one: a string does not start
like a name, no key is a marker, and an integer is not out of range. -/
def Unmarked (v : PdfValue) : Prop :=
  match v with
  | string text => text.toList.head? ≠ some '/'
  | integer n => n < 0x8000000000000000
  | dictionary es | stream es _ =>
    (Pairs.keys es).Nodup ∧ ∀ key ∈ Pairs.keys es, key ∉ markers
  | _ => True

inductive Encodable : PdfValue → Prop
  | intro {v : PdfValue} (hv : v.Unmarked) (h : ∀ e ∈ v.children, Encodable e.2) : Encodable v

theorem Encodable.leaf {v : PdfValue} (hv : v.Unmarked) (h : v.children = []) : v.Encodable := by
  constructor
  · exact hv
  · simp [h]

def nestedStream : PdfValue :=
  .stream [("Kids", .array [.reference ⟨4294967295, 65535⟩, .name "/A", .integer (-3)]),
    ("Data", .stream [] 7), ("Text", .string "a/b")] 12

theorem encodable_nestedStream : nestedStream.Encodable := by
  have hdata : (stream [] 7).Encodable := .leaf (by simp [Unmarked, Pairs.keys]) rfl
  have hkids : (array [.reference ⟨4294967295, 65535⟩, .name "/A", .integer (-3)]).Encodable := by
    refine .intro trivial ?_
    simp only [children, List.zipIdx_cons, List.zipIdx_nil, List.map_cons, List.map_nil,
      List.forall_mem_cons, List.not_mem_nil, false_implies, implies_true, and_true]
    exact ⟨.leaf trivial rfl, .leaf trivial rfl, .leaf (by simp [Unmarked]) rfl⟩
  refine .intro (by simp [nestedStream, Unmarked, Pairs.keys, markers]) ?_
  simp only [nestedStream, children, List.forall_mem_cons, List.not_mem_nil, false_implies,
    implies_true, and_true]
  exact ⟨hkids, hdata, .leaf (by simp [Unmarked]) rfl⟩

end PdfValue

namespace Decoding

open Json.Draft

variable {es done : List (String × PdfValue)} {items : List PdfValue} {v : PdfValue} {s : String}

theorem ofString_name (text : String) : ofString ("/" ++ text) = .name text := by
  simp [ofString]

theorem ofString_of_head?_ne (h : s.toList.head? ≠ some '/') : ofString s = .string s := by
  unfold ofString
  split
  case h_1 heq => simp [heq] at h
  case h_2 => rfl

theorem within_ok {α : Type} (segment : Segment) (a : α) : within segment (.ok a) = .ok a := rfl

theorem values_toJsonItems (h : ∀ v ∈ items, value (ofJson v.toJson) = .ok v) (n : ℕ) :
    values n (ofJsonItems (PdfValue.toJsonItems items)) = .ok items := by
  induction items generalizing n with
  | nil => rfl
  | cons v items ih =>
    rw [PdfValue.toJsonItems, ofJsonItems, values, h v List.mem_cons_self, within_ok,
      ih fun w hw ↦ h w (List.mem_cons_of_mem v hw)]
    rfl

theorem members_toJsonEntries (h : ∀ e ∈ es, value (ofJson e.2.toJson) = .ok e.2)
    (hkeys : ∀ key ∈ Pairs.keys es, key ∉ PdfValue.markers)
    (hnodup : (Pairs.keys (done ++ es)).Nodup) :
    members { entries := done } (ofJsonMembers (PdfValue.toJsonEntries es)) =
      .ok { entries := done ++ es } := by
  induction es generalizing done with
  | nil => simp [PdfValue.toJsonEntries, ofJsonMembers, members]
  | cons e es ih =>
    obtain ⟨key, v⟩ := e
    obtain ⟨hkey, hkeys⟩ := List.forall_mem_cons.1 hkeys
    obtain ⟨hv, h⟩ := List.forall_mem_cons.1 h
    simp only [PdfValue.markers, List.mem_cons, List.not_mem_nil, or_false, not_or] at hkey
    obtain ⟨href, hstream, hlength⟩ := hkey
    have hsplit : done ++ (key, v) :: es = done ++ [(key, v)] ++ es := by simp
    have hnew : key ∉ Pairs.keys done := by
      simp only [Pairs.keys, List.map_append, List.map_cons, List.nodup_append] at hnodup
      intro hkey
      exact hnodup.2.2 key hkey key List.mem_cons_self rfl
    rw [hsplit] at hnodup ⊢
    rw [PdfValue.toJsonEntries, ofJsonMembers, members, if_neg href, if_neg hlength, hv, within_ok]
    simp only [bind, Except.bind, if_neg hstream, Pairs.put_of_notMem hnew]
    exact ih h hkeys hnodup

theorem value_object {ms : List (String × Json)} {m : Members}
    (h : members {} (ofJsonMembers ms) = .ok m) (hm : m.value = .ok v) :
    value (ofJson (.object ms)) = .ok v := by
  rw [ofJson, value, h]
  exact hm

theorem value_dictionary (h : ∀ e ∈ es, value (ofJson e.2.toJson) = .ok e.2)
    (hes : (PdfValue.dictionary es).Unmarked) :
    value (ofJson (PdfValue.dictionary es).toJson) = .ok (.dictionary es) :=
  value_object (members_toJsonEntries h hes.2 hes.1) rfl

theorem value_stream {n : ℕ} (h : value (ofJson (PdfValue.dictionary es).toJson) =
    .ok (.dictionary es)) : value (ofJson (PdfValue.stream es n).toJson) = .ok (.stream es n) := by
  rw [PdfValue.toJson, ofJson] at h
  have hlength : length (.integer n) = .ok n := by simp [length]
  refine value_object (m := { stream := some es, length := some n }) ?_ rfl
  simp [ofJsonMembers, ofJson, members, h, hlength, within_ok, bind, Except.bind]

theorem value_reference (id : ObjectId) :
    value (ofJson (PdfValue.reference id).toJson) = .ok (.reference id) := by
  refine value_object (m := { reference := some id.render }) ?_ ?_
  · simp [ofJsonMembers, ofJson, members, text, within_ok, bind, Except.bind]
  · simp [Members.value, id.parse?_render]

/-- A value is decoded from the JSON that encodes it. -/
theorem value_toJson (h : v.Encodable) : value (ofJson v.toJson) = .ok v := by
  induction h with
  | @intro v hv _ ih =>
    cases v with
    | dictionary es => exact value_dictionary ih hv
    | stream es n => exact value_stream (value_dictionary ih hv)
    | array items =>
      have hitems : ∀ v ∈ items, value (ofJson v.toJson) = .ok v := by
        intro v hv
        rw [← PdfValue.map_snd_children_array items] at hv
        obtain ⟨e, he, rfl⟩ := List.mem_map.1 hv
        exact ih e he
      rw [PdfValue.toJson, ofJson, value, values_toJsonItems hitems]
      rfl
    | name text => rw [PdfValue.toJson, ofJson, value, ofString_name]
    | string text => rw [PdfValue.toJson, ofJson, value, ofString_of_head?_ne hv]
    | integer n =>
      rw [PdfValue.toJson, ofJson, value]
      exact if_pos hv
    | reference id => exact value_reference id
    | boolean b => rfl
    | number x => rfl
    | null => rfl

theorem value_toJson_nestedStream : PdfValue.nestedStream.Encodable ∧
    value (ofJson PdfValue.nestedStream.toJson) = .ok PdfValue.nestedStream :=
  ⟨PdfValue.encodable_nestedStream, value_toJson PdfValue.encodable_nestedStream⟩

end Decoding

end PdfSchema
