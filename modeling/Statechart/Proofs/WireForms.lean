import Statechart.Proofs.TimeText
import Statechart.Proofs.Value
import Statechart.Wire.Editor
import Statechart.Wire.Journal

/-! Wire forms lose nothing: what is written is read as it was. The written form of a value is then
the one form for every text that is read as the value. -/
namespace Statechart.Wire

/-- What is written reads back as the same value. -/
class Lossless (α : Type) [Wire α] : Prop where
  decode_encode (x : α) : decode (encode x) = some x

export Lossless (decode_encode)

attribute [simp] decode_encode

variable {α : Type} [Wire α]

section Lossless

variable [Lossless α]

theorem encode_inj {x y : α} : encode x = encode y ↔ x = y := by
  refine ⟨fun h => ?_, congrArg encode⟩
  have hx := decode_encode x
  rw [h, decode_encode] at hx
  exact (Option.some.inj hx).symm

instance : Lossless Json := ⟨fun _ => rfl⟩

instance : Lossless String := ⟨fun _ => rfl⟩

instance : Lossless Bool := ⟨fun _ => rfl⟩

instance : Lossless UInt64 where
  decode_encode n := by
    have hsize : (n.toNat : Int) < UInt64.size := Int.ofNat_lt.mpr n.toNat_lt
    have hread : UInt64.ofNat (Int.toNat n.toNat) = n := by
      rw [Int.toNat_natCast, UInt64.ofNat_toNat]
    exact (if_pos ⟨Int.natCast_nonneg _, hsize⟩).trans (congrArg some hread)

instance : Lossless (List α) where
  decode_encode xs := by
    have hitems : (xs.map encode).mapM decode = some xs := by
      rw [List.mapM_map, funext (f := decode ∘ encode) decode_encode]
      exact (List.mapM_pure (m := Option) (f := id)).trans (congrArg some xs.map_id)
    exact hitems

theorem decode_encode_option {x : Option α} (h : ∀ y ∈ x, encode y ≠ .null) :
    decode (encode x) = some x := by
  cases x with
  | none => rfl
  | some y =>
    have hread : (decode (encode y)).map some = some (some y) := by rw [decode_encode]; rfl
    have hne := h y rfl
    change decode (encode y) = some (some y)
    unfold decode instOption
    dsimp only
    split
    · contradiction
    · exact hread

@[simp] theorem field_self (name : String) (x : α) (rest : List (String × Json)) :
    field ((name, encode x) :: rest) name = some x := by
  simp [field]

end Lossless

@[simp] theorem field_other {key name : String} (h : key ≠ name) (j : Json)
    (rest : List (String × Json)) :
    field (α := α) ((key, j) :: rest) name = field rest name := by
  simp [field, h]

@[simp] theorem fieldOr_self {name : String} {missing x : α} {j : Json} (h : decode j = some x)
    (rest : List (String × Json)) : fieldOr ((name, j) :: rest) name missing = some x := by
  simpa [fieldOr] using h

@[simp] theorem fieldOr_other {key name : String} (h : key ≠ name) (missing : α) (j : Json)
    (rest : List (String × Json)) :
    fieldOr ((key, j) :: rest) name missing = fieldOr rest name missing := by
  simp [fieldOr, h]

@[simp] theorem fieldOr_nil (name : String) (missing : α) :
    fieldOr [] name missing = some missing := rfl

instance : Lossless Path := ⟨fun _ => rfl⟩

theorem ofLeaves_leaves (c : Configuration) : Configuration.ofLeaves c.leaves = c :=
  Configuration.eq_of_same_leaves fun _ => Configuration.mem_ofLeaves

instance : Lossless Configuration where
  decode_encode c := by
    change (do
      let leaves ← field [("leaves", encode c.leaves)] "leaves"
      return Configuration.ofLeaves leaves) = some c
    simp [ofLeaves_leaves]

theorem ofParts?_self (d : Duration) : Duration.ofParts? d.secs d.nanos = some d := by
  have hcarry : d.nanos / 1000000000 = 0 := Nat.div_eq_of_lt d.nanos_lt
  have hsecs : d.secs.toNat + d.nanos / 1000000000 < UInt64.size := hcarry ▸ d.secs.toNat_lt
  rw [Duration.ofParts?, if_pos hsecs]
  simp [hcarry, Nat.mod_eq_of_lt d.nanos_lt]

theorem decode_duration {fields : List (String × Json)}
    (h : (fields.all fun f => f.1 == "secs" || f.1 == "nanos") = true) :
    decode (.obj fields) = (do
      let secs ← field fields "secs"
      let nanos : UInt64 ← field fields "nanos"
      if nanos < 4294967296 then Duration.ofParts? secs nanos.toNat else none) :=
  if_pos h

instance : Lossless Duration where
  decode_encode d := by
    have hnanos : (UInt64.ofNat d.nanos).toNat = d.nanos :=
      UInt64.toNat_ofNat_of_lt' (Nat.lt_trans d.nanos_lt (by decide))
    have hsmall : UInt64.ofNat d.nanos < 4294967296 := by
      rw [UInt64.lt_iff_toNat_lt, hnanos]
      exact Nat.lt_trans d.nanos_lt (by decide)
    have hint : Json.int d.nanos = encode (UInt64.ofNat d.nanos) := by
      change Json.int d.nanos = .int (UInt64.ofNat d.nanos).toNat
      rw [hnanos]
    rw [show encode d = .obj [("nanos", .int d.nanos), ("secs", encode d.secs)] from rfl, hint,
      decode_duration rfl]
    simp [hsmall, hnanos, ofParts?_self]

instance : Lossless Fired where
  decode_encode
    | .run _ | .assign _ => rfl
    | .schedule state delay => by
      change (do
        let fields := [("delay", encode delay), ("node", encode state)]
        return Fired.schedule (← field fields "node") (← field fields "delay")) = _
      simp
    | .cancel state => by
      change (do return Fired.cancel (← field [("node", encode state)] "node")) = _
      simp

instance {T : Type} [Wire T] [Lossless T] : Lossless (EditorEvent T) where
  decode_encode e := by
    cases e with
    | contentUpdated content =>
      change (field [("content", encode content), ("type", .text "CONTENT_UPDATED")] "content").map
        EditorEvent.contentUpdated = _
      rw [field_self]
      rfl
    | _ => rfl

theorem decode_options (fields : List (String × Json)) :
    decode (.obj fields) = (do
      let debug ← fieldOr fields "debug" false
      let historyLimit ← fieldOr fields "history_limit" 1024
      return (⟨debug, historyLimit⟩ : Options)) :=
  rfl

instance : Lossless Options where
  decode_encode o := by
    rw [show encode o =
      .obj [("debug", encode o.debug), ("history_limit", encode o.historyLimit)] from rfl,
      decode_options]
    simp

instance : Lossless Timestamp := ⟨Rfc3339.read?_text⟩

instance : Lossless Move where
  decode_encode m := by
    change (do
      let fields := [("event", encode m.trigger), ("from", encode m.source),
        ("timestamp", encode m.time), ("to", encode m.target)]
      return {
        source := ← field fields "from"
        target := ← field fields "to"
        trigger := ← field fields "event"
        time := ← field fields "timestamp" }) = some m
    simp

theorem decode_journal (fields : List (String × Json)) :
    decode (.obj fields) = (do
      let moves ← field fields "records"
      let limit ← fieldOr fields "limit" none
      return (⟨moves, limit⟩ : Journal)) :=
  rfl

instance : Lossless Journal where
  decode_encode j := by
    obtain ⟨moves, limit⟩ := j
    cases limit with
    | none =>
      rw [show encode (⟨moves, none⟩ : Journal) = .obj [("records", encode moves)] from rfl,
        decode_journal]
      simp
    | some limit =>
      have hlimit : decode (encode limit) = some (some limit) :=
        decode_encode_option (x := some limit) fun _ _ => Json.noConfusion
      rw [show encode (⟨moves, some limit⟩ : Journal) =
        .obj [("limit", encode limit), ("records", encode moves)] from rfl, decode_journal]
      simp [hlimit]

/-- What becomes of a text that is read as a value of the type and written again. -/
def rewritten? (α : Type) [Wire α] (j : Json) : Option Json :=
  (decode j : Option α).map encode

/-- All texts of a value are rewritten to one, which is a text of that value and no other. -/
structure Canonical (α : Type) [Wire α] : Prop where
  reads_back (x : α) : decode (encode x) = some x
  keeps_value {j k : Json} : rewritten? α j = some k → decode (α := α) k = decode j
  settles {j k : Json} : rewritten? α j = some k → rewritten? α k = some k
  one_form {j k : Json} {x y : α} : decode j = some x → decode k = some y →
    (rewritten? α j = rewritten? α k ↔ x = y)

theorem canonical (α : Type) [Wire α] [Lossless α] : Canonical α where
  reads_back := decode_encode
  keeps_value h := by
    obtain ⟨x, hx, rfl⟩ := Option.map_eq_some_iff.mp h
    rw [hx, decode_encode]
  settles h := by
    obtain ⟨x, -, rfl⟩ := Option.map_eq_some_iff.mp h
    rw [rewritten?, decode_encode, Option.map_some]
  one_form hx hy := by
    rw [rewritten?, rewritten?, hx, hy, Option.map_some, Option.map_some, Option.some_inj,
      encode_inj]

theorem encode_leaves (c : Configuration) : ∃ texts : List String,
    encode c = .obj [("leaves", .arr (texts.map .text))] ∧ texts.Pairwise (· < ·) := by
  refine ⟨c.leaves.map (·.text), ?_, List.pairwise_map.mpr c.ascending⟩
  rw [List.map_map]
  rfl

theorem mem_leaves_of_decode {j : Json} {c : Configuration} (h : decode j = some c) :
    ∃ fields, ∃ ps : List Path, record? 1 ["leaves"] j = some fields ∧
      field fields "leaves" = some ps ∧ ∀ p, p ∈ c.leaves ↔ p ∈ ps := by
  obtain ⟨fields, hfields, h⟩ := Option.bind_eq_some_iff.mp h
  obtain ⟨ps, hps, h⟩ := Option.bind_eq_some_iff.mp h
  obtain rfl := Option.some.inj h
  exact ⟨fields, ps, hfields, hps, fun _ => Configuration.mem_ofLeaves⟩

theorem limit_encode (j : Journal) : (encode j).field? "limit" = j.limit.map encode := by
  obtain ⟨moves, limit⟩ := j
  cases limit <;> rfl

theorem fieldOr_missing {fields : List (String × Json)} {name : String}
    (h : (Json.obj fields).field? name = none) (missing : α) :
    fieldOr fields name missing = some missing := by
  have hnone : fields.find? (·.1 == name) = none := Option.map_eq_none_iff.mp h
  rw [fieldOr, hnone]

theorem defaults_of_decode {fields : List (String × Json)} {o : Options}
    (h : decode (.obj fields) = some o) :
    ((Json.obj fields).field? "debug" = none → o.debug = false) ∧
      ((Json.obj fields).field? "history_limit" = none → o.historyLimit = 1024) := by
  rw [decode_options] at h
  obtain ⟨debug, hdebug, h⟩ := Option.bind_eq_some_iff.mp h
  obtain ⟨historyLimit, hlimit, h⟩ := Option.bind_eq_some_iff.mp h
  obtain rfl := Option.some.inj h
  constructor
  · intro hnone
    rw [fieldOr_missing hnone] at hdebug
    exact (Option.some.inj hdebug).symm
  · intro hnone
    rw [fieldOr_missing hnone] at hlimit
    exact (Option.some.inj hlimit).symm

/-- The forms lose nothing and are canonical: leaves ascend, each once; a journal without a limit
has no field for one; and options are written in full, what was missing by its default. -/
theorem canonical_forms :
    (Canonical Path ∧ Canonical Configuration ∧ Canonical Fired ∧ Canonical (EditorEvent Json) ∧
      Canonical Options ∧ Canonical Journal) ∧
    (∀ c : Configuration, ∃ texts : List String,
      encode c = .obj [("leaves", .arr (texts.map .text))] ∧ texts.Pairwise (· < ·)) ∧
    (∀ (j : Json) (c : Configuration), decode j = some c → ∃ fields, ∃ ps : List Path,
      record? 1 ["leaves"] j = some fields ∧ field fields "leaves" = some ps ∧
        ∀ p, p ∈ c.leaves ↔ p ∈ ps) ∧
    (∀ j : Journal, (encode j).field? "limit" = j.limit.map encode) ∧
    (∀ o : Options, encode o =
      .obj [("debug", encode o.debug), ("history_limit", encode o.historyLimit)]) ∧
    ∀ (fields : List (String × Json)) (o : Options), decode (.obj fields) = some o →
      ((Json.obj fields).field? "debug" = none → o.debug = false) ∧
        ((Json.obj fields).field? "history_limit" = none → o.historyLimit = 1024) := by
  refine ⟨⟨canonical Path, canonical Configuration, canonical Fired, canonical (EditorEvent Json),
    canonical Options, canonical Journal⟩, encode_leaves, fun j c h => mem_leaves_of_decode h,
    limit_encode, fun _ => rfl, fun fields o h => defaults_of_decode h⟩

example : rewritten? Configuration (.arr [.arr [.text "z", .text "y", .text "z"]]) =
    some (.obj [("leaves", .arr [.text "y", .text "z"])]) := by
  decide +kernel

end Statechart.Wire
