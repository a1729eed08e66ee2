import ComponentDoc.CommandLine.Command
import ComponentDoc.Configuration.Yaml
import ComponentDoc.Proofs.Configuration.Merging
import ComponentDoc.Proofs.Outcome
import ComponentDoc.Proofs.Yaml.Keys
import ComponentDoc.Script.Parse

/-!
Sections of a configuration that are missing or empty. Main statement: the command takes each setting from its
argument, else from the configuration, else the standard one, and writes the documentation of a component; only an
empty section on the output breaks it off, and a whole number that is too long.
-/

namespace ComponentDoc

open JsonValue Keyed

inductive IsSection : Option JsonValue → Keyed String JsonValue → Prop
  | missing : IsSection none []
  | empty : IsSection (some .null) []
  | mapping (members : Keyed String JsonValue) : IsSection (some (.object members)) members

inductive IsKeywords : Option JsonValue → List JsonValue → Prop
  | missing : IsKeywords none []
  | empty : IsKeywords (some .null) []
  | list (items : List JsonValue) : IsKeywords (some (.array items)) (extend [] items)

structure Sections where
  includeLocations : Option Bool
  dialect : Option Int
  hidePrivate : Option Bool
  keywords : List JsonValue
  indent : Option JsonValue

def Outcome.silent (o : Outcome) : Outcome := { o with errors := "" }

namespace Sections

/-- The configuration says this, with values of the kinds that the settings take. -/
structure Of (s : Sections) (config : Keyed String JsonValue) : Prop where
  options : ∃ members, IsSection (get? "options" config) members ∧
    get? "include_source_locations" members = s.includeLocations.map .bool ∧
    get? "dialect_version" members = s.dialect.map .int ∧
    get? "ignore_private" members = s.hidePrivate.map .bool
  output : ∃ members, IsSection (get? "output" config) members ∧ get? "indent" members = s.indent
  keywords : IsKeywords (get? Configuration.growingKey config) s.keywords

def version (s : Sections) (a : Arguments) : Int := (a.dialect.or s.dialect).getD 3

/-- The settings: what is asked for, else what the configuration says, else the standard. -/
def options (s : Sections) (a : Arguments) : Options where
  includeLocations := a.includeLocations || s.includeLocations.getD false
  dialect := if s.version a = 2 then .v2 else .v3
  version := .whole (s.version a)
  hidePrivate := a.ignorePrivate || s.hidePrivate.getD false
  hiddenKeywords := s.keywords.filterMap fun
    | .scalar (.text t) => some t
    | _ => none
  fileName := if fileName a.file.toList = [] then .absent else .given (String.ofList (fileName a.file.toList))

end Sections

variable {s : Sections} {a : Arguments} {update members base : Keyed String JsonValue} {key : String}
  {keywords : List JsonValue} {n : Int}

namespace Configuration

theorem mergeValue_scalar {old : Literal} (v : JsonValue) : mergeValue key (some (.scalar old)) v = v := by
  cases v <;> rfl

/-- Merged into the standard configuration, a section stays empty if it was, and else it has its own members and those
standard ones that it does not have. -/
theorem section_merge (hupdate : (object update).HasDistinctKeys) (h : IsSection (get? key update) members)
    (hbase : get? key standard = some (.object base)) :
    get? key update = some .null ∧ members = [] ∧ get? key (merge standard update) = some .null ∨
      get? key update ≠ some .null ∧ ∃ merged, get? key (merge standard update) = some (.object merged) ∧
        ∀ name, get? name merged =
          ((get? name members).map (mergeValue name (get? name base))).or (get? name base) := by
  cases hupdate with
  | object hkeys hmembers =>
    rw [get?_merge_of_nodup hkeys, hbase]
    generalize hsection : get? key update = value at h ⊢
    cases h with
    | missing => exact .inr ⟨nofun, base, rfl, fun _ => rfl⟩
    | empty => exact .inl ⟨rfl, rfl, rfl⟩
    | mapping =>
      cases hmembers _ (mem_of_get? hsection) with
      | object hmembers =>
        exact .inr ⟨nofun, merge base members, rfl, fun name => get?_merge_of_nodup hmembers name base⟩

theorem member_merge {merged : Keyed String JsonValue} {name : String} {standard : Literal} {value : Option JsonValue}
    (hmerged : ∀ name, get? name merged =
      ((get? name members).map (mergeValue name (get? name base))).or (get? name base))
    (hmember : get? name members = value) (hbase : get? name base = some (.scalar standard)) :
    get? name merged = value.or (some (.scalar standard)) := by
  rw [hmerged, hbase, hmember, funext mergeValue_scalar, Option.map_id']

end Configuration

namespace Settings

open ComponentDoc.Configuration

def Counts (value : Option JsonValue) (members : Keyed String JsonValue) : Prop :=
  orNothing value = none ∧ members = [] ∨ orNothing value = some (.object members)

theorem isSome_orNothing (flag : Option Bool) :
    (orNothing ((flag.map .bool).or (some (.bool false)))).isSome = flag.getD false := by
  rcases flag with _ | _ | _ <;> rfl

theorem toInteger_or (number : Option Int) :
    toInteger (((number.map .int).or (some (.int 3))).getD (.int 3)) = .ok (number.getD 3) := by
  cases number <;> rfl

theorem exists_options (hupdate : (object update).HasDistinctKeys) (h : s.Of update) :
    ∃ options, Counts (get? "options" (merge standard update)) options ∧
      (orNothing (get? "include_source_locations" options)).isSome = s.includeLocations.getD false ∧
      toInteger ((get? "dialect_version" options).getD (.int 3)) = .ok (s.dialect.getD 3) ∧
      (orNothing (get? "ignore_private" options)).isSome = s.hidePrivate.getD false := by
  obtain ⟨members, hsection, hlocations, hdialect, hprivate⟩ := h.options
  rcases section_merge hupdate hsection rfl with ⟨-, rfl, hget⟩ | ⟨-, merged, hget, hmerged⟩
  · refine ⟨[], .inl ⟨hget ▸ rfl, rfl⟩, ?_⟩
    rw [Option.map_eq_none_iff.mp hlocations.symm, Option.map_eq_none_iff.mp hdialect.symm,
      Option.map_eq_none_iff.mp hprivate.symm]
    exact ⟨rfl, rfl, rfl⟩
  · have hlocations' := member_merge hmerged hlocations rfl
    have hdialect' := member_merge hmerged hdialect rfl
    have hprivate' := member_merge hmerged hprivate rfl
    refine ⟨merged, .inr ?_, hlocations' ▸ isSome_orNothing _, hdialect' ▸ toInteger_or _,
      hprivate' ▸ isSome_orNothing _⟩
    rw [hget]
    cases merged with
    | nil => cases hs : s.dialect <;> rw [hs] at hdialect' <;> cases hdialect'
    | cons => rfl

theorem keywords_merge (hupdate : (object update).HasDistinctKeys)
    (h : IsKeywords (get? growingKey update) keywords) :
    orNothing (get? growingKey (merge standard update)) = none ∧ keywords = [] ∨
      orNothing (get? growingKey (merge standard update)) = some (.array keywords) := by
  cases hupdate with
  | object hkeys _ =>
    rw [get?_merge_of_nodup hkeys]
    generalize get? growingKey update = value at h ⊢
    have hlist (items : List JsonValue) : orNothing (some (.array items)) = none ∧ items = [] ∨
        orNothing (some (.array items)) = some (.array items) := by
      cases items with
      | nil => exact .inl ⟨rfl, rfl⟩
      | cons => exact .inr rfl
    cases h with
    | missing => exact hlist []
    | empty => exact .inl ⟨rfl, rfl⟩
    | list items => exact hlist (extend [] items)

theorem configured_merge (hupdate : (object update).HasDistinctKeys) (h : s.Of update) :
    configured (merge standard update) = .ok
      [("include_source_locations", .bool (s.includeLocations.getD false)),
        ("dialect_version", .int (s.dialect.getD 3)),
        ("ignore_private", .bool (s.hidePrivate.getD false)), ("ignore_keywords", .array s.keywords)] := by
  obtain ⟨options, hoptions, hlocations, hdialect, hprivate⟩ := exists_options hupdate h
  have hkeywords := keywords_merge hupdate h.keywords
  rw [growingKey] at hkeywords
  rw [← hlocations, ← hprivate]
  unfold configured
  rcases hoptions with ⟨ho, rfl⟩ | ho <;> rcases hkeywords with ⟨hk, hnone⟩ | hk <;> rw [ho, hk]
  case inl.inl => simp only [pure_bind, hdialect, hnone]; rfl
  case inl.inr => simp only [pure_bind, hdialect]; rfl
  case inr.inl => simp only [pure_bind, hdialect, hnone]; rfl
  case inr.inr => simp only [pure_bind, hdialect]; rfl

theorem ofConfiguration_eq {config : Keyed String JsonValue} {locations hide : Bool}
    (hconfig : configured config = .ok
      [("include_source_locations", .bool locations), ("dialect_version", .int n), ("ignore_private", .bool hide),
        ("ignore_keywords", .array keywords)])
    (hn : a.dialect.getD n = 2 ∨ a.dialect.getD n = 3) :
    ofConfiguration config (Command.overrides a) = .ok
      ⟨.bool (a.includeLocations || locations), .int (a.dialect.getD n), .bool (a.ignorePrivate || hide), keywords,
        .string (String.ofList (ComponentDoc.fileName a.file.toList))⟩ := by
  have hvalues : ofConfiguration config (Command.overrides a) = ofValues
      [("include_source_locations", .bool (a.includeLocations || locations)),
        ("dialect_version", .int (a.dialect.getD n)), ("ignore_private", .bool (a.ignorePrivate || hide)),
        ("ignore_keywords", .array keywords),
        ("file_name", .string (String.ofList (ComponentDoc.fileName a.file.toList)))] := by
    unfold ofConfiguration
    rw [hconfig]
    unfold Command.overrides
    cases a.dialect <;> cases a.includeLocations <;> cases a.ignorePrivate <;> rfl
  rw [hvalues]
  rcases hn with hn | hn <;> rw [hn] <;> rfl

theorem isEmpty_ofList (name : List Char) : (CodeText.ofString (String.ofList name)).isEmpty = name.isEmpty := by
  cases name <;> simp [CodeText.ofString, CodeText.isEmpty, CodeText.ofChars_points]

theorem toOptions_eq (h : s.version a = 2 ∨ s.version a = 3) :
    toOptions ⟨.bool (a.includeLocations || s.includeLocations.getD false), .int (s.version a),
      .bool (a.ignorePrivate || s.hidePrivate.getD false), s.keywords,
      .string (String.ofList (ComponentDoc.fileName a.file.toList))⟩ = s.options a := by
  have hname (name : List Char) : (if (CodeText.ofString (String.ofList name)).isEmpty then FileName.absent
      else .given (String.ofList (CodeText.ofString (String.ofList name)).chars)) =
      if name = [] then .absent else .given (String.ofList name) := by
    rw [isEmpty_ofList, CodeText.ofString, CodeText.chars_ofChars, String.toList_ofList]
    simp only [List.isEmpty_iff]
  rw [Sections.options, ← hname]
  rcases h with h | h <;> rw [h] <;> rfl

theorem exists_settings (hupdate : (object update).HasDistinctKeys) (h : s.Of update)
    (hversion : s.version a = 2 ∨ s.version a = 3) :
    ∃ settings, ofConfiguration (merge standard update) (Command.overrides a) = .ok settings ∧
      settings.toOptions = s.options a := by
  have hdialect : a.dialect.getD (s.dialect.getD 3) = s.version a := by
    unfold Sections.version
    cases a.dialect <;> rfl
  have hsettings := ofConfiguration_eq (a := a) (configured_merge hupdate h) (hdialect ▸ hversion)
  rw [hdialect] at hsettings
  exact ⟨_, hsettings, toOptions_eq hversion⟩

end Settings

namespace Command

open ComponentDoc.Configuration

theorem layoutOf_merge (hupdate : (object update).HasDistinctKeys) (h : s.Of update) :
    get? "output" update = some .null ∧ layoutOf (merge standard update) = none ∨
      get? "output" update ≠ some .null ∧
        layoutOf (merge standard update) = layout? (s.indent.getD (.int 2)) := by
  obtain ⟨members, hsection, hindent⟩ := h.output
  rcases section_merge hupdate hsection rfl with ⟨hnull, -, hget⟩ | ⟨hne, merged, hget, hmerged⟩
  · refine .inl ⟨hnull, ?_⟩
    rw [layoutOf, hget]
    rfl
  · refine .inr ⟨hne, ?_⟩
    have hindent' := member_merge hmerged hindent rfl
    rw [layoutOf, hget]
    change (get? "indent" merged).bind layout? = _
    rw [hindent']
    cases s.indent <;> rfl

/-- The text is written: to a file if one is named. -/
def delivered (a : Arguments) (text : CodeText) : Outcome :=
  match a.out with
  | none => ⟨.code 0, text, "", none⟩
  | some out => ⟨.code 0, "", "", some (plainPath out, text)⟩

section Ends

variable {config : Keyed String JsonValue} {layout : Layout} {notices : List Notice} {e : Extraction}
  {doc : Documentation} {read : String → Option String} {path text source : String}

theorem silent_finish (h : layoutOf config = some layout) :
    (finish a config notices e doc).silent =
      if doc.render.isWritable then delivered a (writtenLine layout doc.render)
      else ⟨.broken .longNumber, "", "", none⟩ := by
  unfold finish delivered
  rw [h]
  dsimp only
  split
  · cases a.out <;> rfl
  · rfl

theorem silent_finish_none (h : layoutOf config = none) :
    (finish a config notices e doc).silent = ⟨.broken .wrongLayout, "", "", none⟩ := by
  rw [finish, h]
  rfl

theorem run_eq_finish [Script.Reader] [Format] (hconfig : a.config = some path) (hpath : path ≠ "")
    (htext : read path = some text)
    (hupdate : Format.read (normalizeBreaks text.toList) = some (.object update))
    (hkeys : (object update).HasDistinctKeys) (hsections : s.Of update)
    (hversion : s.version a = 2 ∨ s.version a = 3) (hsource : read a.file = some source)
    (hdoc : (extract (s.options a) (normalizeBreaks source.toList)).result = .ok doc) :
    run read a = finish a (merge standard update) [] (extract (s.options a) (normalizeBreaks source.toList)) doc := by
  have hload : load read a.config = (.ok (merge standard update), []) := by
    have htext' : ofText path text = .ok (merge standard update) := by
      rw [ofText, hupdate]
      cases update <;> rfl
    rw [load, hconfig, Option.filter_some, if_pos (by simpa using hpath)]
    dsimp only
    rw [htext, ← htext']
  obtain ⟨settings, hsettings, hoptions⟩ := Settings.exists_settings hkeys hsections hversion
  rw [run, hload]
  dsimp only
  rw [hsource]
  dsimp only
  rw [hsettings]
  dsimp only
  rw [hoptions, hdoc]

/-- A component that can be documented, and a configuration whose sections are missing, empty or mappings: the
settings are those asked for, else those configured, else the standard ones, and the documentation is written. A
section on the output that is empty takes away the layout, which only then is looked up. -/
theorem run_sections [Script.Reader] [Format] (hconfig : a.config = some path) (hpath : path ≠ "")
    (htext : read path = some text)
    (hupdate : Format.read (normalizeBreaks text.toList) = some (.object update))
    (hkeys : (object update).HasDistinctKeys) (hsections : s.Of update)
    (hversion : s.version a = 2 ∨ s.version a = 3) (hlayout : layout? (s.indent.getD (.int 2)) = some layout)
    (hsource : read a.file = some source)
    (hdoc : (extract (s.options a) (normalizeBreaks source.toList)).result = .ok doc) :
    (get? "output" update ≠ some .null → (run read a).silent =
      if doc.render.isWritable then delivered a (writtenLine layout doc.render)
      else ⟨.broken .longNumber, "", "", none⟩) ∧
    (get? "output" update = some .null → (run read a).silent = ⟨.broken .wrongLayout, "", "", none⟩) := by
  rw [run_eq_finish hconfig hpath htext hupdate hkeys hsections hversion hsource hdoc]
  rcases layoutOf_merge hkeys hsections with ⟨hnull, hnone⟩ | ⟨hne, hsome⟩
  · exact ⟨fun hne => absurd hnull hne, fun _ => silent_finish_none hnone⟩
  · exact ⟨fun _ => silent_finish (hsome.trans hlayout), fun hnull => absurd hnull hne⟩

/-- A section on the output that is empty is no mapping when the layout is looked up in it, though the component can
be documented with the settings that the configuration stands for. -/
theorem run_output_empty :
    let text := "output:\n"
    let read (path : String) : Option String := if path = "c.yml" then some text else some "<p>x</p>"
    let a : Arguments := ⟨"a.svelte", some "c.yml", none, false, false, none, false⟩
    let s : Sections := ⟨none, none, none, [], none⟩
    Arguments.parse ["a.svelte", "--config", "c.yml"] = .ok a ∧
      Format.read (normalizeBreaks text.toList) = some (.object [("output", .null)]) ∧ s.Of [("output", .null)] ∧
      (∃ doc, (extract (s.options a) "<p>x</p>".toList).result = .ok doc ∧ doc.render.isWritable) ∧
      (run read a).silent = ⟨.broken .wrongLayout, "", "", none⟩ := by
  intro text read a s
  have hconfig : a.config = some "c.yml" := rfl
  have htext : read "c.yml" = some text := rfl
  have hsource : read a.file = some "<p>x</p>" := rfl
  have hupdate : Format.read (normalizeBreaks "output:\n".toList) = some (.object [("output", .null)]) := by rfl
  have hsections : s.Of [("output", .null)] := ⟨⟨_, .missing, rfl, rfl, rfl⟩, ⟨_, .empty, rfl⟩, .missing⟩
  have hbreaks : normalizeBreaks "<p>x</p>".toList = "<p>x</p>".toList := by rfl
  have hwritable : (extract (s.options a) "<p>x</p>".toList).result.toOption.any (·.render.isWritable) := by
    decide +kernel
  obtain ⟨doc, hdoc, hwritable⟩ := exists_ok_of_any hwritable
  have hkeys := Yaml.read_hasDistinctKeys hupdate
  have hrun := run_eq_finish hconfig (by decide) htext hupdate hkeys hsections (.inr rfl) hsource (hbreaks.symm ▸ hdoc)
  exact ⟨rfl, hupdate, hsections, ⟨doc, hdoc, hwritable⟩, hrun ▸ silent_finish_none rfl⟩

/-- Places are told since it is asked for, and the layout is the one that is configured. -/
theorem run_sections_indented :
    let text := "options:\noutput:\n indent: 1\n"
    let read (path : String) : Option String := if path = "c.yml" then some text else some "<p>x</p>"
    let a : Arguments := ⟨"a.svelte", some "c.yml", none, true, false, some "a.json", false⟩
    let options : Options := ⟨true, .v3, .whole 3, false, [], .given "a.svelte"⟩
    ∃ doc, (extract options "<p>x</p>".toList).result = .ok doc ∧
      (run read a).silent = ⟨.code 0, "", "", some ("a.json", writtenLine (.indented " ") doc.render)⟩ := by
  intro text read a options
  have hconfig : a.config = some "c.yml" := rfl
  have htext : read "c.yml" = some text := rfl
  have hsource : read a.file = some "<p>x</p>" := rfl
  let update : Keyed String JsonValue := [("options", .null), ("output", .object [("indent", .int 1)])]
  let s : Sections := ⟨none, none, none, [], some (.int 1)⟩
  have hupdate : Format.read (normalizeBreaks "options:\noutput:\n indent: 1\n".toList) = some (.object update) := by
    rfl
  have hsections : s.Of update := ⟨⟨_, .empty, rfl, rfl, rfl⟩, ⟨_, .mapping _, rfl⟩, .missing⟩
  have hname : fileName "a.svelte".toList = "a.svelte".toList := by decide +kernel
  have hoptions : s.options a = options := by
    simp only [Sections.options, a, hname]
    rfl
  have hlayout : layout? (s.indent.getD (.int 2)) = some (.indented " ") := rfl
  have hbreaks : normalizeBreaks "<p>x</p>".toList = "<p>x</p>".toList := by rfl
  have hwritable : (extract options "<p>x</p>".toList).result.toOption.any (·.render.isWritable) := by decide +kernel
  obtain ⟨doc, hdoc, hwritable⟩ := exists_ok_of_any hwritable
  have hextract : (extract (s.options a) (normalizeBreaks "<p>x</p>".toList)).result = .ok doc := by
    rw [hoptions, hbreaks, hdoc]
  have hout : plainPath "a.json" = "a.json" := by decide +kernel
  have hkeys := Yaml.read_hasDistinctKeys hupdate
  obtain ⟨hrun, -⟩ := run_sections hconfig (by decide) htext hupdate hkeys hsections (.inr rfl) hlayout hsource hextract
  refine ⟨doc, hdoc, (hrun nofun).trans ?_⟩
  rw [if_pos hwritable]
  exact congrArg (fun out => (⟨.code 0, "", "", some (out, _)⟩ : Outcome)) hout

end Ends

end Command

end ComponentDoc
