import PathIdentity.Json.Coding
import PathIdentity.Proofs.Decoding
import Mathlib.Data.List.Basic
import Mathlib.Tactic.SplitIfs

/-!
# Reading and writing identities

What is written is read back (`ReadsBack`), and `coding_exact` tells which JSON values are read at
all, and as what. An id has one form, a named value two (`Enumerated.ReadsAsName`). A record has an
array form and an object form (`Json.ReadsAsRecord`): both are read through the list of the values
of its fields, in order of declaration, and an object is looked at under the keys of the record
only. A missing key is a failure, but for `ClockUncertainties`, where it stands for null.
-/

namespace PathIdentity

open Function Json

/-! ## Named values -/

namespace Enumerated

/-- Every value is listed, and different values have different names. -/
class Lawful (α : Type) [Enumerated α] : Prop where
  mem_values : ∀ a : α, a ∈ (values : List α)
  name_injective : Injective (name : α → String)

instance : Lawful ExceptionKind where
  mem_values a := by cases a <;> decide
  name_injective a b := by cases a <;> cases b <;> decide

instance : Lawful Transition where
  mem_values a := by cases a <;> decide
  name_injective a b := by cases a <;> cases b <;> decide

instance : Lawful AnalysisMode where
  mem_values a := by cases a <;> decide
  name_injective a b := by cases a <;> cases b <;> decide

variable {α : Type} [Enumerated α] [Lawful α]

theorem ofName?_eq_some_iff {s : String} {a : α} : ofName? α s = some a ↔ s = name a := by
  have hname {b : α} (h : ofName? α s = some b) : name b = s := by
    have hfound := List.find?_some (p := fun b => name b == s) h
    exact beq_iff_eq.1 hfound
  refine ⟨fun h => (hname h).symm, ?_⟩
  rintro rfl
  have hsome : (ofName? α (name a)).isSome = true :=
    List.find?_isSome.2 ⟨a, Lawful.mem_values a, beq_self_eq_true _⟩
  obtain ⟨b, hb⟩ := Option.isSome_iff_exists.1 hsome
  rw [hb, Lawful.name_injective (hname hb)]

end Enumerated

namespace Json

/-! ## Parts of decoders -/

variable {α : Type}

theorem decodeName_eq_ok_iff [Enumerated α] [Enumerated.Lawful α] {s : String} {a : α} :
    decodeName α s = .ok a ↔ s = Enumerated.name a := by
  rw [← Enumerated.ofName?_eq_some_iff, decodeName]
  cases Enumerated.ofName? α s <;> simp

theorem required_eq_ok_iff {name : String} {o : Option α} {a : α} :
    required name o = .ok a ↔ o = some a := by
  cases o <;> simp [required]

theorem noMoreThan_eq_ok_iff {count : ℕ} {items : List Json} {u : Unit} :
    noMoreThan count items = .ok u ↔ items.length ≤ count := by
  rw [noMoreThan]
  split_ifs with h
  · simp [h]
  · simp [Nat.not_lt.1 h]

variable [Coded α]

theorem member?_eq_ok_some_iff {name : String} {fields : List (String × Json)} {a : α} :
    member? name fields = .ok (some a) ↔
      ∃ j, NameMap.get? name fields = some j ∧ decode j = .ok a := by
  rw [member?]
  cases NameMap.get? name fields with
  | none => simp [pure, Except.pure]
  | some j => simp [Option.mapM_some, Decoded.map_eq_ok_iff]

/-- A missing field counts as null. -/
theorem exists_member?_eq_ok_iff {name : String} {fields : List (String × Json)} {o : Option α} :
    (∃ found, member? name fields = .ok found ∧ found.join = o) ↔
      decode ((NameMap.get? name fields).getD .null) = .ok o := by
  rw [member?]
  cases NameMap.get? name fields with
  | none =>
    have hnull : decode Json.null = .ok (none : Option α) := rfl
    simp [hnull, pure, Except.pure]
  | some j => simp [Option.mapM_some, Decoded.map_eq_ok_iff]

theorem element_eq_ok_iff {record : String} {count index : ℕ} {items : List Json} {a : α} :
    element record count index items = .ok a ↔ ∃ j, items[index]? = some j ∧ decode j = .ok a := by
  rw [element]
  cases items[index]? <;> simp

/-! ## Records -/

/-- The values that an object has under some keys, in the order of the keys; `missing` stands in for
the value of a key that is missing. -/
def valuesOf? (missing : Option Json) (keys : List String) (fields : List (String × Json)) :
    Option (List Json) :=
  keys.mapM fun key => (NameMap.get? key fields).or missing

@[simp] theorem valuesOf?_cons_eq_some_iff {missing : Option Json} {key : String}
    {keys : List String} {fields : List (String × Json)} {values : List Json} :
    valuesOf? missing (key :: keys) fields = some values ↔
      ∃ j rest, (NameMap.get? key fields).or missing = some j ∧
        valuesOf? missing keys fields = some rest ∧ values = j :: rest := by
  rw [valuesOf?, List.mapM_cons]
  simp only [Option.bind_eq_bind, Option.bind_eq_some_iff, Option.pure_def, Option.some.injEq,
    exists_and_left, valuesOf?, eq_comm (a := values)]

@[simp] theorem valuesOf?_nil_eq_some_iff {missing : Option Json} {fields : List (String × Json)}
    {values : List Json} : valuesOf? missing [] fields = some values ↔ values = [] := by
  simp [valuesOf?, eq_comm]

theorem valuesOf?_congr {missing : Option Json} {keys : List String}
    {fields fields' : List (String × Json)}
    (h : ∀ key ∈ keys, NameMap.get? key fields = NameMap.get? key fields') :
    valuesOf? missing keys fields = valuesOf? missing keys fields' := by
  induction keys with
  | nil => rfl
  | cons key keys ih =>
    obtain ⟨hkey, hkeys⟩ := List.forall_mem_cons.1 h
    have hrest := ih hkeys
    simp only [valuesOf?, List.mapM_cons, hkey] at hrest ⊢
    rw [hrest]

/-- The values of fields are read as a record: from an array of them, or from an object that has
them under the keys of the record. `Holds` says that values, one for each field in order of
declaration, are read as the fields of `a`. -/
structure ReadsAsRecord (α : Type) [Coded α] (missing : Option Json) (keys : List String)
    (Holds : List Json → α → Prop) : Prop where
  decode_eq_ok_iff : ∀ (j : Json) (a : α), decode j = .ok a ↔ ∃ values, Holds values a ∧
    (j = .array values ∨ ∃ fields, j = .object fields ∧ valuesOf? missing keys fields = some values)
  /-- The two forms of the same values are read alike. -/
  forms : ∀ fields values, valuesOf? missing keys fields = some values →
    ∀ a : α, decode (.object fields) = .ok a ↔ decode (.array values) = .ok a
  /-- Other keys do not matter, nor does the order of keys. -/
  others : ∀ fields fields',
    (∀ key ∈ keys, NameMap.get? key fields = NameMap.get? key fields') →
      ∀ a : α, decode (.object fields) = .ok a ↔ decode (.object fields') = .ok a

theorem ReadsAsRecord.of_forms {missing : Option Json} {keys : List String}
    {Holds : List Json → α → Prop}
    (harray : ∀ values (a : α), decode (.array values) = .ok a ↔ Holds values a)
    (hobject : ∀ fields (a : α), decode (.object fields) = .ok a ↔
      ∃ values, Holds values a ∧ valuesOf? missing keys fields = some values)
    (helse : ∀ (j : Json) (a : α), decode j = .ok a →
      (∃ values, j = .array values) ∨ ∃ fields, j = .object fields) :
    ReadsAsRecord α missing keys Holds where
  decode_eq_ok_iff j a := by
    constructor
    · intro h
      rcases helse j a h with ⟨values, rfl⟩ | ⟨fields, rfl⟩
      · exact ⟨values, (harray values a).1 h, .inl rfl⟩
      · obtain ⟨values, hvalues, hfields⟩ := (hobject fields a).1 h
        exact ⟨values, hvalues, .inr ⟨fields, rfl, hfields⟩⟩
    · rintro ⟨values, hvalues, rfl | ⟨fields, rfl, hfields⟩⟩
      · exact (harray values a).2 hvalues
      · exact (hobject fields a).2 ⟨values, hvalues, hfields⟩
  forms fields values h a := by
    rw [hobject, harray, h]
    simp
  others fields fields' h a := by
    rw [hobject, hobject, valuesOf?_congr h]

end Json

open Json

/-! ## The fields of records -/

/-- Values that are read as the fields of a path reference. -/
def PathRef.Holds : List Json → PathRef → Prop
  | [vertex, tagIndex], p => decode vertex = .ok p.vertex ∧ decode tagIndex = .ok p.tagIndex
  | _, _ => False

/-- Values that are read as the fields of a matcher state. -/
def MatcherState.Holds : List Json → MatcherState → Prop
  | [exception, kind, index], s =>
    decode exception = .ok s.exception ∧ decode kind = .ok s.kind ∧ decode index = .ok s.index
  | _, _ => False

/-- Values that are read as the uncertainties of a clock. -/
def ClockUncertainties.Holds : List Json → ClockUncertainties → Prop
  | [min, max], u => decode min = .ok u.min ∧ decode max = .ok u.max
  | _, _ => False

theorem PathRef.readsAsRecord :
    ReadsAsRecord PathRef none ["vertex", "tag_index"] PathRef.Holds := by
  refine .of_forms (fun values p => ?_) (fun fields p => ?_) fun j p h => ?_
  · show (do
      let vertex ← element "PathRef" 2 0 values
      let tagIndex ← element "PathRef" 2 1 values
      noMoreThan 2 values
      return ⟨vertex, tagIndex⟩) = Except.ok p ↔ _
    obtain ⟨vertex, tagIndex⟩ := p
    simp only [Decoded.bind_eq_ok_iff, element_eq_ok_iff, noMoreThan_eq_ok_iff,
      Decoded.pure_eq_ok_iff]
    rcases values with _ | ⟨x, _ | ⟨y, _ | ⟨z, rest⟩⟩⟩ <;> simp [PathRef.Holds]
  · show (do
      let tagIndex ← member? "tag_index" fields
      let vertex ← member? "vertex" fields
      let vertex ← required "vertex" vertex
      let tagIndex ← required "tag_index" tagIndex
      return ⟨vertex, tagIndex⟩) = Except.ok p ↔ _
    simp only [Decoded.bind_eq_ok_iff, required_eq_ok_iff, Decoded.pure_eq_ok_iff]
    constructor
    · rintro ⟨_, htag, _, hvertex, vertex, rfl, tagIndex, rfl, rfl⟩
      obtain ⟨x, hx, hdx⟩ := member?_eq_ok_some_iff.1 hvertex
      obtain ⟨y, hy, hdy⟩ := member?_eq_ok_some_iff.1 htag
      exact ⟨[x, y], ⟨hdx, hdy⟩, by simp [hx, hy]⟩
    · rintro ⟨values, hvalues, hfields⟩
      simp only [valuesOf?_cons_eq_some_iff, Option.or_none, valuesOf?_nil_eq_some_iff] at hfields
      obtain ⟨x, _, hx, ⟨y, _, hy, rfl, rfl⟩, rfl⟩ := hfields
      obtain ⟨hdx, hdy⟩ := hvalues
      exact ⟨_, member?_eq_ok_some_iff.2 ⟨y, hy, hdy⟩, _, member?_eq_ok_some_iff.2 ⟨x, hx, hdx⟩, _,
        rfl, _, rfl, rfl⟩
  · cases j with
    | array values => exact .inl ⟨values, rfl⟩
    | object fields => exact .inr ⟨fields, rfl⟩
    | _ => cases h

theorem MatcherState.readsAsRecord :
    ReadsAsRecord MatcherState none ["exception", "kind", "index"] MatcherState.Holds := by
  refine .of_forms (fun values s => ?_) (fun fields s => ?_) fun j s h => ?_
  · show (do
      let exception ← element "MatcherState" 3 0 values
      let kind ← element "MatcherState" 3 1 values
      let index ← element "MatcherState" 3 2 values
      noMoreThan 3 values
      return ⟨exception, kind, index⟩) = Except.ok s ↔ _
    obtain ⟨exception, kind, index⟩ := s
    simp only [Decoded.bind_eq_ok_iff, element_eq_ok_iff, noMoreThan_eq_ok_iff,
      Decoded.pure_eq_ok_iff]
    rcases values with _ | ⟨x, _ | ⟨y, _ | ⟨z, _ | ⟨w, rest⟩⟩⟩⟩ <;> simp [MatcherState.Holds]
  · show (do
      let exception ← member? "exception" fields
      let index ← member? "index" fields
      let kind ← member? "kind" fields
      let exception ← required "exception" exception
      let kind ← required "kind" kind
      let index ← required "index" index
      return ⟨exception, kind, index⟩) = Except.ok s ↔ _
    simp only [Decoded.bind_eq_ok_iff, required_eq_ok_iff, Decoded.pure_eq_ok_iff]
    constructor
    · rintro ⟨_, hexception, _, hindex, _, hkind, exception, rfl, kind, rfl, index, rfl, rfl⟩
      obtain ⟨x, hx, hdx⟩ := member?_eq_ok_some_iff.1 hexception
      obtain ⟨y, hy, hdy⟩ := member?_eq_ok_some_iff.1 hkind
      obtain ⟨z, hz, hdz⟩ := member?_eq_ok_some_iff.1 hindex
      exact ⟨[x, y, z], ⟨hdx, hdy, hdz⟩, by simp [hx, hy, hz]⟩
    · rintro ⟨values, hvalues, hfields⟩
      simp only [valuesOf?_cons_eq_some_iff, Option.or_none, valuesOf?_nil_eq_some_iff] at hfields
      obtain ⟨x, _, hx, ⟨y, _, hy, ⟨z, _, hz, rfl, rfl⟩, rfl⟩, rfl⟩ := hfields
      obtain ⟨hdx, hdy, hdz⟩ := hvalues
      exact ⟨_, member?_eq_ok_some_iff.2 ⟨x, hx, hdx⟩, _, member?_eq_ok_some_iff.2 ⟨z, hz, hdz⟩, _,
        member?_eq_ok_some_iff.2 ⟨y, hy, hdy⟩, _, rfl, _, rfl, _, rfl, rfl⟩
  · cases j with
    | array values => exact .inl ⟨values, rfl⟩
    | object fields => exact .inr ⟨fields, rfl⟩
    | _ => cases h

theorem ClockUncertainties.readsAsRecord :
    ReadsAsRecord ClockUncertainties (some .null) ["min", "max"] ClockUncertainties.Holds := by
  refine .of_forms (fun values u => ?_) (fun fields u => ?_) fun j u h => ?_
  · show (do
      let min ← element "ClockUncertainties" 2 0 values
      let max ← element "ClockUncertainties" 2 1 values
      noMoreThan 2 values
      return ⟨min, max⟩) = Except.ok u ↔ _
    obtain ⟨min, max⟩ := u
    simp only [Decoded.bind_eq_ok_iff, element_eq_ok_iff, noMoreThan_eq_ok_iff,
      Decoded.pure_eq_ok_iff]
    rcases values with _ | ⟨x, _ | ⟨y, _ | ⟨z, rest⟩⟩⟩ <;> simp [ClockUncertainties.Holds]
  · show (do
      let max ← member? "max" fields
      let min ← member? "min" fields
      return ⟨min.join, max.join⟩) = Except.ok u ↔ _
    simp only [Decoded.bind_eq_ok_iff, Decoded.pure_eq_ok_iff]
    constructor
    · rintro ⟨max, hmax, min, hmin, rfl⟩
      have hmax := exists_member?_eq_ok_iff.1 ⟨max, hmax, rfl⟩
      have hmin := exists_member?_eq_ok_iff.1 ⟨min, hmin, rfl⟩
      exact ⟨[_, _], ⟨hmin, hmax⟩, by simp [Option.or_some]⟩
    · rintro ⟨values, hvalues, hfields⟩
      simp only [valuesOf?_cons_eq_some_iff, Option.or_some, valuesOf?_nil_eq_some_iff,
        Option.some.injEq] at hfields
      obtain ⟨_, _, rfl, ⟨_, _, rfl, rfl, rfl⟩, rfl⟩ := hfields
      obtain ⟨hmin, hmax⟩ := hvalues
      obtain ⟨max, hmax, heq⟩ := exists_member?_eq_ok_iff.2 hmax
      obtain ⟨min, hmin, heq'⟩ := exists_member?_eq_ok_iff.2 hmin
      refine ⟨max, hmax, min, hmin, ?_⟩
      rw [heq, heq']
  · cases j with
    | array values => exact .inl ⟨values, rfl⟩
    | object fields => exact .inr ⟨fields, rfl⟩
    | _ => cases h

/-! ## Simple values -/

theorem decode_word_eq_ok_iff {j : Json} {n : UInt32} : decode j = .ok n ↔ j = .int n.toNat := by
  cases j with
  | int m =>
    have hn := n.toNat_lt
    show (if 0 ≤ m ∧ m < Int.pow 2 32 then Except.ok (UInt32.ofNat m.toNat) else _) = _ ↔ _
    have hpow : Int.pow 2 32 = 2 ^ 32 := rfl
    rw [hpow, Json.int.injEq]
    split_ifs with h
    · rw [Except.ok.injEq, ← UInt32.toNat_inj, UInt32.toNat_ofNat']
      omega
    · constructor
      · intro h
        cases h
      · intro h
        omega
  | _ => exact iff_of_false nofun nofun

theorem decode_id_eq_ok_iff {kind : IdKind} {j : Json} {a : Id kind} :
    decode j = .ok a ↔ j = .int a.number.toNat := by
  show Id.mk <$> decode j = Except.ok a ↔ _
  rw [Decoded.map_eq_ok_iff, ← decode_word_eq_ok_iff]
  constructor
  · rintro ⟨n, hn, rfl⟩
    exact hn
  · intro h
    exact ⟨a.number, h, rfl⟩

/-- A named value is read from its name and from a map from its name to null. -/
def Enumerated.ReadsAsName (α : Type) [Enumerated α] : Prop :=
  ∀ (j : Json) (a : α), decode j = .ok a ↔ j = .string (name a) ∨ j = .object [(name a, .null)]

theorem Enumerated.readsAsName (α : Type) [Enumerated α] [Lawful α] : ReadsAsName α := by
  intro j a
  cases j with
  | string s =>
    show decodeName α s = Except.ok a ↔ _
    simp [decodeName_eq_ok_iff]
  | object fields =>
    rcases fields with _ | ⟨⟨s, k⟩, _ | ⟨field, rest⟩⟩
    · exact iff_of_false nofun (by simp)
    · show (decodeName α s >>= fun b => _) = Except.ok a ↔ _
      simp only [Decoded.bind_eq_ok_iff, decodeName_eq_ok_iff]
      cases k with
      | null => simp [Decoded.pure_eq_ok_iff]
      | _ =>
        refine iff_of_false ?_ (by simp)
        rintro ⟨b, -, h⟩
        cases h
    · exact iff_of_false nofun (by simp)
  | _ => exact iff_of_false nofun (by simp)

theorem decode_optionDouble_eq_ok_iff {j : Json} {o : Option Double} : decode j = .ok o ↔
    j = .null ∧ o = none ∨ (∃ x, j = .float x ∧ o = some x) ∨
      ∃ n, j = .int n ∧ o = some (.ofInt n) := by
  cases j with
  | null =>
    show Except.ok none = Except.ok o ↔ _
    simp [eq_comm]
  | float x =>
    show Except.ok (some x) = Except.ok o ↔ _
    simp [eq_comm]
  | int n =>
    show Except.ok (some (Double.ofInt n)) = Except.ok o ↔ _
    simp [eq_comm]
  | _ => exact iff_of_false nofun (by simp)

/-! ## Writing and reading -/

/-- What is written is read back, so different values are written differently. -/
structure ReadsBack (α : Type) [Coded α] : Prop where
  decode_encode : ∀ a : α, decode (encode a) = .ok a
  encode_injective : Injective (encode : α → Json)

theorem ReadsBack.of_decode_encode {α : Type} [Coded α]
    (h : ∀ a : α, decode (encode a) = .ok a) : ReadsBack α where
  decode_encode := h
  encode_injective a b heq := by
    have hab : (Except.ok a : Decoded α) = Except.ok b := by rw [← h a, ← h b, heq]
    exact Except.ok.inj hab

theorem Id.readsBack (kind : IdKind) : ReadsBack (Id kind) :=
  .of_decode_encode fun _ => decode_id_eq_ok_iff.2 rfl

theorem Enumerated.readsBack (α : Type) [Enumerated α] [Enumerated.Lawful α] : ReadsBack α :=
  .of_decode_encode fun _ => (Enumerated.readsAsName _ _ _).2 (.inl rfl)

theorem PathRef.readsBack : ReadsBack PathRef := by
  refine .of_decode_encode fun p => ?_
  have hholds : PathRef.Holds [encode p.vertex, encode p.tagIndex] p :=
    ⟨decode_id_eq_ok_iff.2 rfl, decode_word_eq_ok_iff.2 rfl⟩
  refine (readsAsRecord.decode_eq_ok_iff _ p).2 ⟨_, hholds, .inr ⟨_, rfl, ?_⟩⟩
  simp [NameMap.ofList, NameMap.get?_put_of_ne]

theorem MatcherState.readsBack : ReadsBack MatcherState := by
  refine .of_decode_encode fun s => ?_
  have hholds : MatcherState.Holds [encode s.exception, encode s.kind, encode s.index] s :=
    ⟨decode_id_eq_ok_iff.2 rfl, (Enumerated.readsAsName _ _ _).2 (.inl rfl),
      decode_word_eq_ok_iff.2 rfl⟩
  refine (readsAsRecord.decode_eq_ok_iff _ s).2 ⟨_, hholds, .inr ⟨_, rfl, ?_⟩⟩
  simp [NameMap.ofList, NameMap.get?_put_of_ne]

/-- Identities are read back as they are written, and JSON values are read as identities exactly
where they have one of their forms. -/
theorem coding_exact :
    (∀ kind, ReadsBack (Id kind)) ∧ ReadsBack PathRef ∧ ReadsBack MatcherState ∧
      ReadsBack Transition ∧ ReadsBack AnalysisMode ∧ ReadsBack ExceptionKind ∧
    ReadsAsRecord PathRef none ["vertex", "tag_index"] PathRef.Holds ∧
      ReadsAsRecord MatcherState none ["exception", "kind", "index"] MatcherState.Holds ∧
      ReadsAsRecord ClockUncertainties (some .null) ["min", "max"] ClockUncertainties.Holds ∧
    (∀ (j : Json) (n : UInt32), decode j = .ok n ↔ j = .int n.toNat) ∧
      (∀ kind (j : Json) (a : Id kind), decode j = .ok a ↔ j = .int a.number.toNat) ∧
      Enumerated.ReadsAsName Transition ∧ Enumerated.ReadsAsName AnalysisMode ∧
      Enumerated.ReadsAsName ExceptionKind ∧
      ∀ (j : Json) (o : Option Double), decode j = .ok o ↔
        j = .null ∧ o = none ∨ (∃ x, j = .float x ∧ o = some x) ∨
          ∃ n, j = .int n ∧ o = some (.ofInt n) :=
  ⟨Id.readsBack, PathRef.readsBack, MatcherState.readsBack, Enumerated.readsBack Transition,
    Enumerated.readsBack AnalysisMode, Enumerated.readsBack ExceptionKind,
    PathRef.readsAsRecord, MatcherState.readsAsRecord, ClockUncertainties.readsAsRecord,
    fun _ _ => decode_word_eq_ok_iff, fun _ _ _ => decode_id_eq_ok_iff,
    Enumerated.readsAsName Transition, Enumerated.readsAsName AnalysisMode,
    Enumerated.readsAsName ExceptionKind, fun _ _ => decode_optionDouble_eq_ok_iff⟩

/-- Only the object form has fields that may be missing. -/
example : decode (.object []) = (.ok ⟨none, none⟩ : Decoded ClockUncertainties) ∧
    decode (.array []) = (.error (.invalidLength 0 (.elements "ClockUncertainties" 2)) :
      Decoded ClockUncertainties) :=
  ⟨rfl, rfl⟩

end PathIdentity
