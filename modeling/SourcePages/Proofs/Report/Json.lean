import SourcePages.Proofs.Json.Decode
import SourcePages.Proofs.Json.Read
import SourcePages.Report.Json

namespace SourcePages

open Json

def Span.shape : Shape := .record [("start", .plain), ("end", .plain)]

def ExportedUnit.shape : Shape :=
  .record [("kind", .plain), ("signature_lines", .list .plain), ("doc_lines", .list .plain),
    ("span", Span.shape)]

def Repository.shape : Shape := .record [("base_url", .plain), ("name", .plain)]

def Document.shape : Shape :=
  .record [("source", .plain), ("output", .plain), ("units", .plain), ("types", .plain),
    ("functions", .plain)]

def Failure.shape : Shape := .record [("source", .plain), ("error", .plain)]

def Stats.shape : Shape :=
  .record [("files_found", .plain), ("files_written", .plain), ("files_failed", .plain),
    ("total_units", .plain), ("type_units", .plain), ("function_units", .plain)]

def Metadata.shape : Shape :=
  .record [("duration_ms", .plain), ("files_per_second", .plain), ("timestamp", .plain),
    ("tool_version", .plain), ("dry_run", .plain)]

def Report.shape : Shape :=
  .record [("root", .plain), ("output_dir", .plain), ("repository", Repository.shape),
    ("include", .list .plain), ("documents", .list Document.shape),
    ("failures", .list Failure.shape), ("stats", Stats.shape), ("metadata", Metadata.shape)]

section Respects

open Decoder.Respects (plain list record)
open FieldReader.Respects (done andField fieldOr?)

theorem Span.respects : Span.decode.Respects Span.shape :=
  record <| done _
    |>.andField (fieldOr? rfl (plain _))
    |>.andField (fieldOr? rfl (plain _))

theorem ExportedUnit.respects : ExportedUnit.decode.Respects ExportedUnit.shape :=
  record <| done _
    |>.andField (fieldOr? rfl (plain _))
    |>.andField (fieldOr? rfl (list (plain _)))
    |>.andField (fieldOr? rfl (list (plain _)))
    |>.andField (fieldOr? rfl Span.respects)

theorem Repository.respects : Repository.decode.Respects Repository.shape :=
  record <| done _
    |>.andField (fieldOr? rfl (plain _))
    |>.andField (fieldOr? rfl (plain _))

theorem Document.respects : Document.decode.Respects Document.shape :=
  record <| done _
    |>.andField (fieldOr? rfl (plain _))
    |>.andField (fieldOr? rfl (plain _))
    |>.andField (fieldOr? rfl (plain _))
    |>.andField (fieldOr? rfl (plain _))
    |>.andField (fieldOr? rfl (plain _))

theorem Failure.respects : Failure.decode.Respects Failure.shape :=
  record <| done _
    |>.andField (fieldOr? rfl (plain _))
    |>.andField (fieldOr? rfl (plain _))

theorem Stats.respects : Stats.decode.Respects Stats.shape :=
  record <| done _
    |>.andField (fieldOr? rfl (plain _))
    |>.andField (fieldOr? rfl (plain _))
    |>.andField (fieldOr? rfl (plain _))
    |>.andField (fieldOr? rfl (plain _))
    |>.andField (fieldOr? rfl (plain _))
    |>.andField (fieldOr? rfl (plain _))

theorem Metadata.respects : Metadata.decode.Respects Metadata.shape :=
  record <| done _
    |>.andField (fieldOr? rfl (plain _))
    |>.andField (fieldOr? rfl (plain _))
    |>.andField (fieldOr? rfl (plain _))
    |>.andField (fieldOr? rfl (plain _))
    |>.andField (fieldOr? rfl (plain _))

theorem Report.respects : Report.decode.Respects Report.shape :=
  record <| done _
    |>.andField (fieldOr? rfl (plain _))
    |>.andField (fieldOr? rfl (plain _))
    |>.andField (fieldOr? rfl Repository.respects)
    |>.andField (fieldOr? rfl (list (plain _)))
    |>.andField (fieldOr? rfl (list Document.respects))
    |>.andField (fieldOr? rfl (list Failure.respects))
    |>.andField (fieldOr? rfl Stats.respects)
    |>.andField (fieldOr? rfl Metadata.respects)

end Respects

section RoundTrip

open Decoder (record_gives list_map)
open FieldReader.Gives (done andField present absent)

theorem Kind.decode_encode (k : Kind) : Kind.decode (Value.text k.name) = .ok k := by
  cases k <;> rfl

theorem decode_text (text : String) : Decoder.text (Value.text text) = .ok text := rfl

theorem decode_texts (texts : List String) : Decoder.list .text (Value.texts texts) = .ok texts :=
  list_map fun text _ => decode_text text

theorem Span.decode_encode (s : Span) : Span.decode s.encode = .ok s :=
  record_gives <| done _
    |>.andField (present (by rfl) (by rfl))
    |>.andField (present (by rfl) (by rfl))

theorem gives_unlessEmpty {α : Type} {given : Given} {name : String} {decode : Decoder α}
    {encode : α → Value} {items : List α} (round : ∀ a ∈ items, decode (encode a) = .ok a)
    (shown : given.value? name = (unlessEmpty name (items.map encode)).lookup name) :
    (FieldReader.fieldOr [] name (.list decode)).Gives given items := by
  cases items with
  | nil => exact absent shown
  | cons a rest =>
    have found : given.value? name = some (.array ((a :: rest).map encode)) := by
      rw [shown]
      exact List.lookup_cons_self
    exact present found (list_map round)

theorem ExportedUnit.decode_encode (u : ExportedUnit) : ExportedUnit.decode u.encode = .ok u := by
  obtain ⟨kind, signature, docs, span⟩ := u
  exact record_gives <| done _
    |>.andField (present (by rfl) (Kind.decode_encode kind))
    |>.andField (present (by rfl) (decode_texts signature))
    |>.andField (gives_unlessEmpty (fun line _ => decode_text line) (by cases docs <;> rfl))
    |>.andField (present (by cases docs <;> rfl) span.decode_encode)

theorem Repository.decode_encode (c : Repository) : Repository.decode c.encode = .ok c := by
  obtain ⟨baseUrl, _ | name⟩ := c
  · exact record_gives <| done _
      |>.andField (present (by rfl) (by rfl))
      |>.andField (absent (by rfl))
  · exact record_gives <| done _
      |>.andField (present (by rfl) (by rfl))
      |>.andField (present (by rfl) (by rfl))

theorem Document.decode_encode (d : Document) : Document.decode d.encode = .ok d :=
  record_gives <| done _
    |>.andField (present (by rfl) (by rfl))
    |>.andField (present (by rfl) (by rfl))
    |>.andField (present (by rfl) (by rfl))
    |>.andField (present (by rfl) (by rfl))
    |>.andField (present (by rfl) (by rfl))

theorem Failure.decode_encode (f : Failure) : Failure.decode f.encode = .ok f :=
  record_gives <| done _
    |>.andField (present (by rfl) (by rfl))
    |>.andField (present (by rfl) (by rfl))

theorem Stats.decode_encode (s : Stats) : Stats.decode s.encode = .ok s :=
  record_gives <| done _
    |>.andField (present (by rfl) (by rfl))
    |>.andField (present (by rfl) (by rfl))
    |>.andField (present (by rfl) (by rfl))
    |>.andField (present (by rfl) (by rfl))
    |>.andField (present (by rfl) (by rfl))
    |>.andField (present (by rfl) (by rfl))

theorem Metadata.decode_encode (m : Metadata) : Metadata.decode m.encode = .ok m :=
  record_gives <| done _
    |>.andField (present (by rfl) (by rfl))
    |>.andField (present (by rfl) (by rfl))
    |>.andField (present (by rfl) (by rfl))
    |>.andField (present (by rfl) (by rfl))
    |>.andField (present (by rfl) (by rfl))

theorem Report.decode_encode (r : Report) : Report.decode r.encode = .ok r := by
  obtain ⟨root, outputDir, repository, includes, documents, failures, stats, metadata⟩ := r
  exact record_gives <| done _
    |>.andField (present (by rfl) (by rfl))
    |>.andField (present (by rfl) (by rfl))
    |>.andField (present (by rfl) repository.decode_encode)
    |>.andField (present (by rfl) (decode_texts includes))
    |>.andField (present (by rfl) (list_map fun d _ => d.decode_encode))
    |>.andField (gives_unlessEmpty (fun f _ => f.decode_encode) (by cases failures <;> rfl))
    |>.andField (present (by cases failures <;> rfl) stats.decode_encode)
    |>.andField (present (by cases failures <;> rfl) metadata.decode_encode)

end RoundTrip

structure Document.Counted (d : Document) : Prop where
  units : d.units < 2 ^ 64
  types : d.types < 2 ^ 64
  functions : d.functions < 2 ^ 64

structure Stats.Counted (s : Stats) : Prop where
  found : s.found < 2 ^ 64
  written : s.written < 2 ^ 64
  failed : s.failed < 2 ^ 64
  units : s.units < 2 ^ 64
  types : s.types < 2 ^ 64
  functions : s.functions < 2 ^ 64

structure Report.Counted (r : Report) : Prop where
  documents : ∀ d ∈ r.documents, d.Counted
  stats : r.stats.Counted
  duration : r.metadata.durationMs < 2 ^ 64

section Conforms

open Conforms (text bool natural real record)
open FieldsConform (nil cons append)

theorem Repository.conforms (c : Repository) : Conforms Repository.shape c.encode := by
  obtain ⟨baseUrl, _ | name⟩ := c
  · exact record (by simp) (cons rfl (text _) nil)
  · exact record (by simp) (cons rfl (text _) (cons rfl (text _) nil))

theorem Document.Counted.conforms {d : Document} (counted : d.Counted) :
    Conforms Document.shape d.encode :=
  record (by simp) <| cons rfl (text _) <| cons rfl (text _) <|
    cons rfl (natural counted.units) <| cons rfl (natural counted.types) <|
    cons rfl (natural counted.functions) nil

theorem Failure.conforms (f : Failure) : Conforms Failure.shape f.encode :=
  record (by simp) <| cons rfl (text _) <| cons rfl (text _) nil

theorem Stats.Counted.conforms {s : Stats} (counted : s.Counted) : Conforms Stats.shape s.encode :=
  record (by simp) <| cons rfl (natural counted.found) <| cons rfl (natural counted.written) <|
    cons rfl (natural counted.failed) <| cons rfl (natural counted.units) <|
    cons rfl (natural counted.types) <| cons rfl (natural counted.functions) nil

theorem Metadata.conforms {m : Metadata} (duration : m.durationMs < 2 ^ 64)
    (rate : Number.read? (Number.format (.real m.filesPerSecond)).toList =
      some (.real m.filesPerSecond)) : Conforms Metadata.shape m.encode :=
  record (by simp) <| cons rfl (natural duration) <| cons rfl (real rate) <| cons rfl (text _) <|
    cons rfl (text _) <| cons rfl (bool _) nil

theorem fieldsConform_unlessEmpty {α : Type} {known : List (String × Shape)} {name : String}
    {s : Shape} {encode : α → Value} {items : List α}
    (declared : known.lookup name = some (.list s)) (each : ∀ a ∈ items, Conforms s (encode a)) :
    FieldsConform known (unlessEmpty name (items.map encode)) := by
  cases items with
  | nil => exact nil
  | cons a rest => exact cons declared (.list each) nil

theorem Report.Counted.conforms {r : Report} (counted : r.Counted)
    (rate : Number.read? (Number.format (.real r.metadata.filesPerSecond)).toList =
      some (.real r.metadata.filesPerSecond)) : Conforms Report.shape r.encode := by
  refine record ?_ ?_
  · cases failures : r.failures <;> simp [unlessEmpty]
  · refine append (append ?_ (fieldsConform_unlessEmpty rfl fun f _ => f.conforms)) ?_
    · have pages := Conforms.list fun d member => (counted.documents d member).conforms
      exact cons rfl (text _) <| cons rfl (text _) <| cons rfl r.repository.conforms <|
        cons rfl (.texts _) <| cons rfl pages nil
    · exact cons rfl counted.stats.conforms <| cons rfl (Metadata.conforms counted.duration rate) nil

end Conforms

/-- The text of a report reads back as the report, and units and repositories are decoded from what
they are encoded as. Fields that are not known, and the order of fields, change nothing: neither in
a text that holds such an edit of the report, nor wherever a value is decoded. -/
theorem encodings_round_trip (u : ExportedUnit) (c : Repository) {r : Report}
    (counted : r.Counted)
    (rate : Number.read? (Number.format (.real r.metadata.filesPerSecond)).toList =
      some (.real r.metadata.filesPerSecond)) :
    (Value.read? r.toJson).map Report.decode = some (.ok r) ∧
    ExportedUnit.decode u.encode = .ok u ∧
    Repository.decode c.encode = .ok c ∧
    (∀ text w, grammar.read? text = some w → Edited Report.shape r.encode w →
      (Value.read? text).map Report.decode = some (.ok r)) ∧
    (∀ v w, Edited Report.shape v w → Report.decode w = Report.decode v) ∧
    (∀ v w, Edited ExportedUnit.shape v w → ExportedUnit.decode w = ExportedUnit.decode v) ∧
    (∀ v w, Edited Repository.shape v w → Repository.decode w = Repository.decode v) := by
  have conforms := counted.conforms rate
  have edited : ∀ text w, grammar.read? text = some w → Edited Report.shape r.encode w →
      (Value.read? text).map Report.decode = some (.ok r) := by
    intro text w reads edits
    rw [Report.respects.read conforms.tidy edits reads, r.decode_encode]
  exact ⟨edited _ _ (read_pretty conforms.readable) .refl, u.decode_encode, c.decode_encode, edited,
    fun _ _ => Report.respects.edited, fun _ _ => ExportedUnit.respects.edited,
    fun _ _ => Repository.respects.edited⟩

def sampleReport : Report where
  root := ⟨"/p"⟩
  outputDir := ⟨"/p/docs"⟩
  repository := ⟨"site", some "p \"1\""⟩
  includes := ["**"]
  documents := [⟨⟨"a.ts"⟩, ⟨"a.md"⟩, 2, 1, 1⟩]
  failures := [⟨⟨"b.ts"⟩, "\x01"⟩]
  stats := ⟨2, 1, 1, 2, 1, 1⟩
  metadata := ⟨0, Binary64.zero, "", releaseVersion, true⟩

theorem sampleReport_round_trip :
    sampleReport.Counted ∧
    Number.read? (Number.format (.real Binary64.zero)).toList = some (.real Binary64.zero) ∧
    (Value.read? sampleReport.toJson).map Report.decode = some (.ok sampleReport) ∧
    Repository.decode (.object [("name", Value.text "p"), ("since", Value.natural 3),
      ("base_url", Value.text "site")]) = .ok ⟨"site", some "p"⟩ := by
  have counted : sampleReport.Counted := by
    refine ⟨fun d member => ?_, ?_, ?_⟩
    · cases List.mem_singleton.mp member
      constructor <;> decide
    · constructor <;> decide
    · decide
  have rate : Number.read? (Number.format (.real Binary64.zero)).toList =
      some (.real Binary64.zero) := by decide
  have whole := encodings_round_trip ⟨.type, [], [], ⟨0, 0⟩⟩ ⟨"site", some "p"⟩ counted rate
  obtain ⟨text, -, encoded, -, -, -, edited⟩ := whole
  have swapped : Edit Repository.shape (Repository.encode ⟨"site", some "p"⟩)
      (.object [("name", Value.text "p"), ("base_url", Value.text "site")]) :=
    .reordered (by decide) (.swap _ _ [])
  have grown : Edit Repository.shape
      (.object ([("name", Value.text "p")] ++ [("base_url", Value.text "site")]))
      (.object ([("name", Value.text "p")] ++
        ("since", Value.natural 3) :: [("base_url", Value.text "site")])) :=
    .added rfl (by decide)
  refine ⟨counted, rate, text, ?_⟩
  rw [← encoded]
  exact edited _ _ (.tail (.single swapped) grown)

end SourcePages
