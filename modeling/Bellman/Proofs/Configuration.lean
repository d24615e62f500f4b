import Bellman.Configuration
import Bellman.Fault.Family
import Bellman.Proofs.Parameters.Conversion
import Mathlib.Data.List.TakeWhile

/-!
# Documents with parameters

Whether a file is read as a document is decided by its name, and what a document stands for by its
root. The entries of a mapping other than its section for parameters do not matter. A root that is
no mapping is refused, but only if it counts as true: zero, false, and what is empty stand for the
defaults, as no document at all does.
-/

namespace Bellman

open Data

namespace Configuration

/-- What the name of a document ends in, in whatever case. -/
def extensions : List (List Char) :=
  ["yaml".toList, "yml".toList]

/-- A name that has something before its last dot, and the extension of a document after it. -/
def NamesDocument (name : String) : Prop :=
  ∃ stem extension : List Char, name.toList = stem ++ '.' :: extension ∧ stem ≠ [] ∧
    extension.map Char.toLower ∈ extensions

section Names

variable {name : String} {stem extension : List Char}

theorem suffix_of_mem (hname : name.toList = stem ++ '.' :: extension) (hdot : '.' ∉ extension) :
    suffix name =
      if extension = [] ∨ stem = [] then "" else String.ofList ('.' :: extension) := by
  have hback : name.toList.reverse = extension.reverse ++ '.' :: stem.reverse := by
    rw [hname, List.reverse_append, List.reverse_cons, List.append_assoc]
    rfl
  have hafter : ∀ c ∈ extension.reverse, decide (c ≠ '.') = true := by
    intro c hc
    rw [decide_eq_true_iff]
    rintro rfl
    exact hdot (List.mem_reverse.mp hc)
  simp only [suffix, hback]
  rw [List.takeWhile_append_of_pos hafter, List.dropWhile_append_of_pos hafter]
  simp

theorem suffix_of_not_mem (hdot : '.' ∉ name.toList) : suffix name = "" := by
  have hnone : name.toList.reverse.dropWhile (fun c => decide (c ≠ '.')) = [] := by
    rw [List.dropWhile_eq_nil_iff]
    intro c hc
    rw [decide_eq_true_iff]
    rintro rfl
    exact hdot (List.mem_reverse.mp hc)
  simp only [suffix, hnone]

theorem isKnownSuffix_dot :
    isKnownSuffix (String.ofList ('.' :: extension)) = true ↔
      extension.map Char.toLower ∈ extensions := by
  have hyaml : ".yaml" = String.ofList ('.' :: "yaml".toList) := by decide
  have hyml : ".yml" = String.ofList ('.' :: "yml".toList) := by decide
  have hlower : Char.toLower '.' = '.' := by decide
  simp only [isKnownSuffix, extensions, hyaml, hyml, String.toList_ofList, List.map_cons, hlower,
    List.contains_iff_mem, List.mem_cons, List.not_mem_nil, String.ofList_inj, List.cons.injEq,
    true_and]

/-- The names with a known suffix are those of documents. -/
theorem isKnownSuffix_suffix : isKnownSuffix (suffix name) = true ↔ NamesDocument name := by
  constructor
  · intro h
    by_cases hdot : '.' ∈ name.toList.reverse
    · obtain ⟨extension, stem, hback, hlast⟩ := List.eq_append_cons_of_mem hdot
      have hname : name.toList = stem.reverse ++ '.' :: extension.reverse := by
        rw [← List.reverse_reverse name.toList, hback]
        simp
      rw [suffix_of_mem hname (by simpa using hlast)] at h
      split at h
      · cases h
      · next hempty =>
          refine ⟨stem.reverse, extension.reverse, hname, fun hstem => hempty (.inr hstem), ?_⟩
          exact isKnownSuffix_dot.mp h
    · rw [suffix_of_not_mem fun hmem => hdot (List.mem_reverse.mpr hmem)] at h
      cases h
  · rintro ⟨stem, extension, hname, hstem, hextension⟩
    have hdot : '.' ∉ extension := by
      intro hmem
      have hlower : '.' ∈ extension.map Char.toLower := List.mem_map.mpr ⟨'.', hmem, rfl⟩
      have hnone : ∀ letters ∈ extensions, '.' ∉ letters := by decide
      exact hnone _ hextension hlower
    have hempty : extension ≠ [] := by
      rintro rfl
      revert hextension
      decide
    rw [suffix_of_mem hname hdot, if_neg (not_or.mpr ⟨hempty, hstem⟩)]
    exact isKnownSuffix_dot.mpr hextension

end Names

section Documents

variable {entries : List (Value × Value)} {document : Value}

/-- The parameters in a mapping are those of its section, whatever else is in it. -/
theorem ofDocument_map (entries : List (Value × Value)) :
    ofDocument (.map entries) =
      Parameters.ofMapping ((Value.lookup? entries section_).getD .null) := by
  have hroot : rootEntries (.map entries) = .ok entries := by
    cases entries <;> rfl
  rw [ofDocument, hroot, ok_bind]
  generalize (Value.lookup? entries section_).getD .null = v
  cases hfields : v.toEntries with
  | error fault => rw [Parameters.ofMapping, hfields]; rfl
  | ok fields => exact Parameters.ofMapping_map_toEntries hfields

/-- What counts as false stands for the defaults. -/
theorem ofDocument_of_isTrue_eq_false (h : document.isTrue = false) :
    ofDocument document = .ok .default := by
  have hroot : rootEntries document = .ok [] := by
    unfold rootEntries
    rw [h]
    rfl
  rw [ofDocument, hroot]
  exact @Parameters.ofMapping_of_isTrue_eq_false (.map []) rfl

theorem rootEntries_of_isTrue (h : document.isTrue = true)
    (hmap : ∀ entries, document ≠ .map entries) : rootEntries document = .error .notAMapping := by
  unfold rootEntries
  rw [h]
  cases document with
  | map entries => exact absurd rfl (hmap entries)
  | _ => rfl

theorem ofDocument_of_isTrue (h : document.isTrue = true)
    (hmap : ∀ entries, document ≠ .map entries) : ofDocument document = .error .notAMapping := by
  rw [ofDocument, rootEntries_of_isTrue h hmap]
  rfl

end Documents

/-- The document that bytes encode. -/
def readDocument (bytes : List UInt8) : Except Fault Value := do
  Yaml.Document.parse (← decode bytes)

theorem load_of_namesDocument {name : String} {bytes : List UInt8} {document : Value}
    (hname : NamesDocument name) (hread : readDocument bytes = .ok document) :
    load name (.file bytes) = ofDocument document := by
  obtain ⟨text, htext, hdocument⟩ := bind_eq_ok.mp hread
  simp only [load, isKnownSuffix_suffix.mpr hname, if_true, htext, ok_bind, ofText, hdocument]

theorem load_of_not_namesDocument {name : String} {bytes : List UInt8}
    (hname : ¬ NamesDocument name) :
    load name (.file bytes) = .error (.unsupportedFormat (suffix name)) :=
  if_neg fun hknown => hname (isKnownSuffix_suffix.mp hknown)

/-- Loading a file fails with a wrong value. -/
def IsRefused (name : String) (bytes : List UInt8) : Prop :=
  ∃ fault, load name (.file bytes) = .error fault ∧ fault.family = .value

/-- A file is refused if its name is not that of a document. Of a document that is a mapping only
the section for parameters matters, and without one it stands for the defaults. Any other document
is refused exactly if it counts as true, and stands for the defaults if it does not. -/
theorem load_file (name : String) (bytes : List UInt8) :
    (¬ NamesDocument name → IsRefused name bytes) ∧
    ∀ document, NamesDocument name → readDocument bytes = .ok document →
      (∀ entries, document = .map entries →
        load name (.file bytes) =
            Parameters.ofMapping ((Value.lookup? entries section_).getD .null) ∧
          ((Value.lookup? entries section_).getD .null = .null →
            load name (.file bytes) = .ok .default)) ∧
      ((∀ entries, document ≠ .map entries) →
        (IsRefused name bytes ↔ document.isTrue = true) ∧
          (document.isTrue = false → load name (.file bytes) = .ok .default)) := by
  constructor
  · intro hname
    exact ⟨_, load_of_not_namesDocument hname, rfl⟩
  intro document hname hread
  have hload := load_of_namesDocument hname hread
  constructor
  · rintro entries rfl
    rw [hload, ofDocument_map]
    refine ⟨rfl, fun hnull => ?_⟩
    rw [hnull]
    exact Parameters.ofMapping_of_isTrue_eq_false rfl
  · intro hmap
    cases htrue : document.isTrue with
    | true =>
        have hrefused := hload.trans (ofDocument_of_isTrue htrue hmap)
        exact ⟨iff_of_true ⟨_, hrefused, rfl⟩ rfl, nofun⟩
    | false =>
        have hdefault := hload.trans (ofDocument_of_isTrue_eq_false htrue)
        refine ⟨iff_of_false ?_ nofun, fun _ => hdefault⟩
        rintro ⟨fault, hfault, -⟩
        rw [hdefault] at hfault
        cases hfault

end Configuration

namespace Stock

open Bellman.Configuration

def documentName : String :=
  "parameters.yaml"

theorem namesDocument_documentName : NamesDocument documentName :=
  ⟨"parameters".toList, "yaml".toList, by decide, by decide, by decide⟩

/-- A document with a section for parameters, and something else. -/
def sections : List UInt8 :=
  "threads: 4\nsddp:\n  time_limit_s: 30\n".toUTF8.toList

/-- A document that is a list of two numbers. -/
def twoNumbers : List UInt8 :=
  "- 1\n- 2\n".toUTF8.toList

/-- A document that is an empty list. -/
def emptyList : List UInt8 :=
  "[]".toUTF8.toList

theorem load_sections_twoNumbers :
    IsRefused "parameters.json" sections ∧
    (∃ entries, readDocument sections = .ok (.map entries) ∧
      load documentName (.file sections) =
        Parameters.ofMapping ((Value.lookup? entries section_).getD .null)) ∧
    IsRefused documentName twoNumbers := by
  refine ⟨?_, ?_, ?_⟩
  · refine (load_file _ _).1 ?_
    rw [← isKnownSuffix_suffix]
    decide
  · have hread : (readDocument sections).toOption.any
        (fun document => document.isTrue && (rootEntries document).isOk) = true := by
      decide +kernel
    obtain ⟨document, hread, hroot⟩ := exists_of_any hread
    rw [Bool.and_eq_true] at hroot
    have hload := (load_file _ _).2 document namesDocument_documentName hread
    by_cases hmap : ∀ entries, document ≠ .map entries
    · rw [rootEntries_of_isTrue hroot.1 hmap] at hroot
      cases hroot.2
    · obtain ⟨entries, hentries⟩ := not_forall_not.mp hmap
      exact ⟨entries, hentries ▸ hread, (hload.1 entries hentries).1⟩
  · have hread : (readDocument twoNumbers).toOption.any
        (fun document => document.typeName = "list" && document.isTrue) = true := by
      decide +kernel
    obtain ⟨document, hread, hlist⟩ := exists_of_any hread
    rw [Bool.and_eq_true, decide_eq_true_iff] at hlist
    have hload := (load_file _ _).2 document namesDocument_documentName hread
    refine (hload.2 ?_).1.mpr hlist.2
    rintro entries rfl
    exact absurd hlist.1 (show "dict" ≠ "list" by decide)

/-- An empty list is accepted as a document, although it is neither a mapping nor nothing. -/
theorem load_emptyList :
    NamesDocument documentName ∧
    (∃ document, readDocument emptyList = .ok document ∧ document.typeName = "list") ∧
    ¬ IsRefused documentName emptyList := by
  have hread : (readDocument emptyList).toOption.any
      (fun document => document.typeName = "list" && !document.isTrue) = true := by
    decide +kernel
  obtain ⟨document, hread, hkind⟩ := exists_of_any hread
  rw [Bool.and_eq_true, decide_eq_true_iff, Bool.not_eq_true'] at hkind
  refine ⟨namesDocument_documentName, ⟨document, hread, hkind.1⟩, ?_⟩
  rintro ⟨fault, hfault, -⟩
  rw [load_of_namesDocument namesDocument_documentName hread,
    ofDocument_of_isTrue_eq_false hkind.2] at hfault
  cases hfault

end Stock

end Bellman
