import SourcePages.Project.Manifest
import SourcePages.Proofs.Json5.Read
import SourcePages.Proofs.Project.Generate
import SourcePages.Proofs.Text.Encode

namespace SourcePages

open Json5 (PlainValue Unbroken partsOf leafOf)

theorem readManifest_plain {α : Type} {t : FileTree} {path : Path} {v : Json.Value} {text : String}
    (plain : PlainValue v) (written : text = v.compact ∨ text = v.pretty)
    (stored : t.read path = .ok (Text.encode text.toList))
    {decode : Json5.Value → Except Json5.Fault α} {a : α}
    (decoded : decode (v.image partsOf leafOf) = .ok a) : readManifest t path decode = .ok a := by
  have readable : t.readText path = .ok text := by
    rw [FileTree.readText, stored]
    simp [Text.decode_encode]
  rw [readManifest, readable]
  simp only [parseManifest, plain.read written, decoded]

section

variable {fields : List (String × Json.Value)} (plain : PlainValue (.object fields))
  (distinct : (fields.map (·.1)).Nodup)

include plain in
theorem plain_of_field {field : String × Json.Value} (member : field ∈ fields) :
    PlainValue field.2 := by
  obtain _ | _ | ⟨-, each⟩ := plain
  exact each field member

include distinct in
theorem eq_of_named {name : String} {v : Json.Value} (member : (name, v) ∈ fields)
    {field : String × Json.Value} (member' : field ∈ fields) (named : field.1 = name) :
    field.2 = v := by
  have found := lookup_of_mem distinct member
  rw [← named, lookup_of_mem distinct member'] at found
  exact Option.some.inj found

include plain distinct

theorem decodeIncludes_plain {patterns : List String}
    (member : ("include", .texts patterns) ∈ fields) :
    decodeIncludes (Json.Value.image partsOf leafOf (.object fields)) = .ok patterns := by
  have texts : ∀ field ∈ fields, field.1 ∈ ["include"] →
      Json5.textList (field.2.image partsOf leafOf) = .ok patterns := by
    intro field member' named
    rw [eq_of_named distinct member member' (List.mem_singleton.mp named)]
    exact Json5.textList_image (plain_of_field plain member)
  obtain ⟨read, taken, found⟩ :=
    Json5.record_image "struct ProjectConfig" (fun _ => patterns) plain distinct texts
  rw [decodeIncludes, taken, ok_bind, found "include" (by decide) _ member]
  rfl

theorem Package.decode_plain {name homepage : String} (named : ("name", .text name) ∈ fields)
    (housed : ("homepage", .text homepage) ∈ fields) :
    Package.decode (Json.Value.image partsOf leafOf (.object fields)) =
      .ok ⟨some name, some homepage⟩ := by
  have texts : ∀ field ∈ fields, field.1 ∈ ["name", "homepage"] →
      Json5.optionalText (field.2.image partsOf leafOf) =
        .ok (some (if field.1 = "name" then name else homepage)) := by
    intro field member known
    have told {s : String} (text : (field.1, Json.Value.text s) ∈ fields) :
        Json5.optionalText (field.2.image partsOf leafOf) = .ok (some s) := by
      rw [eq_of_named distinct text member rfl]
      exact Json5.optionalText_image (plain_of_field plain text)
    simp only [List.mem_cons, List.not_mem_nil, or_false] at known
    rcases known with same | same
    · exact told (by rwa [if_pos same, same])
    · exact told (by rwa [same, if_neg (by decide)])
  obtain ⟨read, taken, found⟩ := Json5.record_image "struct PackageMetadata"
    (fun key => some (if key = "name" then name else homepage)) plain distinct texts
  rw [Package.decode, taken, ok_bind, found "name" (by decide) _ named,
    found "homepage" (by decide) _ housed]
  rfl

end

theorem repository_plain (name homepage : String) (path : Path) :
    ∃ base, Package.repository ⟨some name, some homepage⟩ path = .ok ⟨base, some name⟩ ∧
      '#' ∉ base.toList ∧ (homepage = base ∨ ∃ fragment, homepage = base ++ "#" ++ fragment) := by
  have before : ∀ front rest : List Char, '#' ∉ front →
      (front ++ rest).takeWhile (· ≠ '#') = front ++ rest.takeWhile (· ≠ '#') := by
    intro front rest absent
    apply List.takeWhile_append_of_pos
    intro c member
    exact decide_eq_true fun same => absent (same ▸ member)
  have shown : Package.repository ⟨some name, some homepage⟩ path =
      .ok ⟨String.ofList (homepage.toList.takeWhile (· ≠ '#')), some name⟩ := rfl
  rw [shown]
  by_cases marked : '#' ∈ homepage.toList
  · obtain ⟨front, fragment, cut, absent⟩ := List.eq_append_cons_of_mem marked
    refine ⟨String.ofList front, ?_, by rwa [String.toList_ofList], .inr ⟨.ofList fragment, ?_⟩⟩
    · rw [cut, before _ _ absent, List.takeWhile_cons_of_neg (by decide), List.append_nil]
    · apply String.toList_inj.mp
      simp [cut]
  · refine ⟨homepage, ?_, marked, .inl rfl⟩
    have all := before homepage.toList [] marked
    rw [List.takeWhile_nil, List.append_nil] at all
    rw [all, String.ofList_toList]

/-- A file that holds a plain object, on one line or indented, gives the patterns, the name and the
homepage that are in it, whatever else is in it. -/
theorem manifest_faithful {t : FileTree} {path : Path} {fields : List (String × Json.Value)}
    {text : String} (plain : PlainValue (.object fields)) (distinct : (fields.map (·.1)).Nodup)
    (written : text = Json.Value.compact (.object fields) ∨
      text = Json.Value.pretty (.object fields))
    (stored : t.read path = .ok (Text.encode text.toList)) :
    (∀ patterns, ("include", .texts patterns) ∈ fields → readIncludes t path = .ok patterns) ∧
    ∀ name homepage, ("name", .text name) ∈ fields → ("homepage", .text homepage) ∈ fields →
      readPackage t path = .ok ⟨some name, some homepage⟩ ∧
      ∃ base, Package.repository ⟨some name, some homepage⟩ path = .ok ⟨base, some name⟩ ∧
        '#' ∉ base.toList ∧ (homepage = base ∨ ∃ fragment, homepage = base ++ "#" ++ fragment) := by
  refine ⟨fun patterns member => ?_, fun name homepage named housed => ⟨?_, ?_⟩⟩
  · exact readManifest_plain plain written stored (decodeIncludes_plain plain distinct member)
  · exact readManifest_plain plain written stored (Package.decode_plain plain distinct named housed)
  · exact repository_plain name homepage path

def sampleFields : List (String × Json.Value) :=
  [("name", .text "a\"b"), ("files", .texts ["c\\"]), ("homepage", .text "site#top")]

theorem sampleFields_plain : PlainValue (.object sampleFields) := by
  have text {s : String} (unbroken : Unbroken s) : PlainValue (.text s) := .leaf unbroken
  refine .object (List.forall_mem_map.mp (by decide)) ?_
  refine List.forall_mem_cons.mpr ⟨text (by decide), List.forall_mem_cons.mpr ⟨?_, ?_⟩⟩
  · exact .array (List.forall_mem_singleton.mpr (text (by decide)))
  · exact List.forall_mem_singleton.mpr (text (by decide))

def sampleManifest : List (String × Node) :=
  [("package.json", .file (Text.encode (Json.Value.pretty (.object sampleFields)).toList))]

theorem manifest_faithful_escaped :
    readPackage (sampleTree sampleManifest) ⟨"package.json"⟩ =
      .ok ⟨some "a\"b", some "site#top"⟩ := by
  have leads : (sampleTree sampleManifest).Leads ⟨"package.json"⟩ [] ([] ++ ["package.json"]) :=
    sampleTree_leads (by decide) (by decide) ⟨[], by decide⟩
  have free : (Node.dir sampleManifest).LinkFree := .single _ _
  have found := leads.node?_found free rfl
  have stored : (sampleTree sampleManifest).read ⟨"package.json"⟩ =
      .ok (Text.encode (Json.Value.pretty (.object sampleFields)).toList) := by
    rw [FileTree.read, found]
  obtain ⟨-, package⟩ :=
    manifest_faithful sampleFields_plain (by decide) (.inr rfl) stored
  exact (package "a\"b" "site#top" (by simp [sampleFields]) (by simp [sampleFields])).1

end SourcePages
