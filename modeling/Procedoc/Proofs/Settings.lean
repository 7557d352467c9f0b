import Procedoc.Proofs.Document.Gathering
import Procedoc.Proofs.Template.Trimming
import Procedoc.Settings

/-! # Settings in normal form

The texts that an environment gives lose the white space around them before anything else is done,
so that dropping the slashes at the end of a base address can lay white space bare.

* `isBare_withoutEndSlashes_iff` tells when a base address is left with white space at its ends:
  where some stands right before the slashes (`IsLooseAddress`).
* `Settings.Reads` says how settings come from texts, `Settings.IsTidy` what holds of them whatever
  the texts are, and `Settings.IsShownIn` what a document shows of them.
* `settings_in_normal_form` puts these together. -/

namespace Procedoc
set_option autoImplicit false

/-! ## White space and slashes -/

namespace Text

variable {p : Char → Bool} {cs : List Char}

theorem isBlank_of_isSpace {c : Char} (h : isSpace c = true) : isBlank c = true := by
  simp only [isSpace, isBlank, spaceRanges, blankRanges, within] at h ⊢
  grind

/-- Behind what is left without the end stand characters of the class, and nothing else. -/
theorem exists_dropEnd (p : Char → Bool) (cs : List Char) :
    ∃ v, (∀ c ∈ v, p c = true) ∧ cs = dropEnd p cs ++ v :=
  ⟨cs.rtakeWhile p, fun _ => List.mem_rtakeWhile_imp, (List.rdropWhile_append_rtakeWhile ..).symm⟩

theorem dropEnd_eq_nil_iff : dropEnd p cs = [] ↔ ∀ c ∈ cs, p c = true :=
  List.rdropWhile_eq_nil_iff

theorem getLast?_dropEnd {c : Char} (h : (dropEnd p cs).getLast? = some c) : p c = false := by
  obtain ⟨hne, rfl⟩ := List.mem_getLast?_eq_getLast h
  exact Bool.eq_false_iff.mpr (List.rdropWhile_last_not p cs hne)

theorem head?_dropEnd (h : dropEnd p cs ≠ []) : (dropEnd p cs).head? = cs.head? := by
  obtain ⟨v, -, hcs⟩ := exists_dropEnd p cs
  conv_rhs => rw [hcs, List.head?_append_of_ne_nil _ h]

theorem dropEnd_append_cons {before v : List Char} {b : Char} (hb : p b = false)
    (hv : ∀ c ∈ v, p c = true) : dropEnd p (before ++ b :: v) = before ++ [b] := by
  have hback : (before ++ b :: v).reverse = v.reverse ++ b :: before.reverse := by simp
  rw [dropEnd, hback, List.dropWhile_append_of_pos (by simpa using hv),
    List.dropWhile_cons_of_neg (by simp [hb])]
  simp

end Text

open Text

/-! ## Base addresses -/

section Address

variable {p : Char → Bool}

/-- A character of the class stands right before the slashes at the end of an address, if there are
any. -/
def IsLooseAddress (p : Char → Bool) (url : String) : Prop :=
  ∃ before b slashes, p b = true ∧ (∀ c ∈ slashes, c = '/') ∧ url.toList = before ++ b :: slashes

theorem toList_withoutEndSlashes (url : String) : (withoutEndSlashes url).toList =
    if dropEnd (· = '/') url.toList = [] then ['/'] else dropEnd (· = '/') url.toList := by
  simp only [withoutEndSlashes]
  split <;> rename_i h
  · have hnil : dropEnd (· = '/') url.toList = [] := by
      rw [← toList_trimEnd, String.toList_eq_nil_iff]
      exact String.isEmpty_iff.mp h
    rw [if_pos hnil]
    rfl
  · have hne : dropEnd (· = '/') url.toList ≠ [] := by
      rw [← toList_trimEnd, Ne, String.toList_eq_nil_iff]
      exact fun hempty => h (String.isEmpty_iff.mpr hempty)
    rw [if_neg hne, toList_trimEnd]

/-- An address that has a character of the class where its slashes end has it at its end when they
are dropped. -/
theorem isLooseAddress_iff (hp : p '/' = false) (url : String) : IsLooseAddress p url ↔
    ∃ b, p b = true ∧ (dropEnd (· = '/') url.toList).getLast? = some b := by
  constructor
  · rintro ⟨before, b, slashes, hb, hs, hurl⟩
    have hslash : b ≠ '/' := fun h => by simp [h, hp] at hb
    refine ⟨b, hb, ?_⟩
    rw [hurl, dropEnd_append_cons (by simpa using hslash) (by simpa using hs)]
    exact List.getLast?_concat
  · rintro ⟨b, hb, hlast⟩
    obtain ⟨before, hkept⟩ := List.getLast?_eq_some_iff.mp hlast
    obtain ⟨slashes, hs, hurl⟩ := exists_dropEnd (· = '/') url.toList
    refine ⟨before, b, slashes, hb, by simpa using hs, ?_⟩
    rw [hurl, hkept, List.append_assoc]
    rfl

/-- Without the slashes at its end, an address has characters of a class at its ends only if it has
one at its front or right before these slashes. -/
theorem isBare_withoutEndSlashes_iff (hp : p '/' = false) (url : String) :
    IsBare p (withoutEndSlashes url).toList ↔
      (∀ c, url.toList.head? = some c → p c = false) ∧ ¬ IsLooseAddress p url := by
  rw [isLooseAddress_iff hp, toList_withoutEndSlashes]
  split <;> rename_i hkept
  -- there are slashes only, of which one is left
  · have hroot : IsBare p ['/'] := ⟨by simpa using hp, by simpa using hp⟩
    have hall : ∀ c ∈ url.toList, c = '/' := by simpa using dropEnd_eq_nil_iff.mp hkept
    refine iff_of_true hroot ⟨fun c hc => ?_, ?_⟩
    · rw [hall c (List.mem_of_head? hc), hp]
    · rw [hkept]
      nofun
  · rw [← head?_dropEnd hkept]
    refine ⟨fun h => ⟨h.front, fun ⟨b, hb, hlast⟩ => ?_⟩, fun h => ⟨h.1, fun c hc => ?_⟩⟩
    · simp [h.back b hlast] at hb
    · exact Bool.eq_false_iff.mpr fun hpc => h.2 ⟨c, hpc, hc⟩

theorem withoutEndSlashes_ne_empty (url : String) : withoutEndSlashes url ≠ "" := by
  rw [Ne, ← String.toList_eq_nil_iff, toList_withoutEndSlashes]
  split <;> simp_all

theorem head?_withoutEndSlashes {url : String} {c : Char}
    (h : (withoutEndSlashes url).toList.head? = some c) : c = '/' ∨ url.toList.head? = some c := by
  rw [toList_withoutEndSlashes] at h
  split at h
  · cases h
    exact .inl rfl
  · rename_i hne
    exact .inr (head?_dropEnd hne ▸ h)

theorem getLast?_withoutEndSlashes (url : String) : withoutEndSlashes url = "/" ∨
    (withoutEndSlashes url).toList.getLast? ≠ some '/' := by
  rw [← String.toList_inj, toList_withoutEndSlashes]
  split
  · exact .inl rfl
  · exact .inr fun h => by simpa using getLast?_dropEnd h

end Address

/-! ## Values from texts -/

/-- A text that may be missing: blank ones count as none. -/
def keptText? (t : String) : Option String := if (strip t).isEmpty then none else some (strip t)

theorem isBare_strip (t : String) : IsBare isBlank (strip t).toList := by
  rw [strip, toList_trim]
  exact isBare_dropEnds _ _

theorem trim_strip (t : String) : trim isSpace (strip t) = strip t := by
  have hbare := (isBare_strip t).mono fun _ => isBlank_of_isSpace
  rw [trim, dropEnds_of_isBare hbare, String.ofList_toList]

theorem readOptionalText_str (t : String) : readOptionalText (.str t) = .ok (keptText? t) := by
  simp only [readOptionalText, keptText?, readText, trim_strip]
  split <;> rfl

theorem isBare_keptText? {t kept : String} (h : keptText? t = some kept) :
    kept ≠ "" ∧ IsBare isBlank kept.toList := by
  unfold keptText? at h
  split at h
  · cases h
  · rename_i hne
    cases h
    exact ⟨fun hempty => hne (String.isEmpty_iff.mpr hempty), isBare_strip t⟩

theorem LogLevel.name_mem (l : LogLevel) :
    l.name ∈ ["DEBUG", "INFO", "WARNING", "ERROR", "CRITICAL"] := by
  cases l <;> decide

theorem LogLevel.name_of_ofText? {text : String} {l : LogLevel}
    (h : LogLevel.ofText? text = some l) : l.name = upper text := by
  simpa using List.find?_some h

namespace Settings

/-- The text that an environment gives for a setting, a file filling in what it does not name. -/
def text? (env file : Environment) (x : Setting) : Option String :=
  Entries.get? (env.filledFrom file).bySmallName (lower x.variable)

/-- The base address that is given, or the usual one, without the white space around it. -/
def address (env file : Environment) : String :=
  trim isSpace ((text? env file .baseUrl).getD ({} : Settings).baseUrl)

/-- How settings come from the texts of an environment. -/
structure Reads (env file : Environment) (s : Settings) : Prop where
  baseUrl : s.baseUrl = withoutEndSlashes (address env file)
  description : s.description = (text? env file .description).bind keptText?
  docsUrl : s.docsUrl = (text? env file .docsUrl).bind keptText?
  logLevel : s.logLevel.name = upper (trim isSpace ((text? env file .logLevel).getD "INFO"))

theorem value?_eq (env file : Environment) (x : Setting) :
    Setting.value? [] (env.filledFrom file).bySmallName x = (text? env file x).map .str := rfl

theorem ofValues_eq_ok {value? : Setting → Option Json} {s : Settings}
    (h : ofValues value? = .ok s) :
    readOr ({} : Settings).baseUrl readBaseUrl (value? .baseUrl) = .ok s.baseUrl ∧
      readOr none readOptionalText (value? .description) = .ok s.description ∧
      readOr none readOptionalText (value? .docsUrl) = .ok s.docsUrl ∧
      readOr .info readLogLevel (value? .logLevel) = .ok s.logLevel := by
  simp only [ofValues] at h
  split at h
  · rename_i hbaseUrl hdescription hdocsUrl hlogLevel _
    cases h
    exact ⟨hbaseUrl, hdescription, hdocsUrl, hlogLevel⟩
  · cases h

theorem readOr_baseUrl (t : Option String) :
    readOr ({} : Settings).baseUrl readBaseUrl (t.map .str) =
      .ok (withoutEndSlashes (trim isSpace (t.getD ({} : Settings).baseUrl))) := by
  cases t with
  | none =>
    have hdefault : withoutEndSlashes (trim isSpace ({} : Settings).baseUrl) =
        ({} : Settings).baseUrl := by decide +kernel
    rw [Option.getD_none, hdefault]
    rfl
  | some t => rfl

theorem readOr_optionalText (t : Option String) :
    readOr none readOptionalText (t.map .str) = .ok (t.bind keptText?) := by
  cases t with
  | none => rfl
  | some t =>
    rw [Option.map_some, Option.bind_some, readOr]
    exact readOptionalText_str t

theorem name_of_readOr_logLevel {t : Option String} {l : LogLevel}
    (h : readOr .info readLogLevel (t.map .str) = .ok l) :
    l.name = upper (trim isSpace (t.getD "INFO")) := by
  cases t with
  | none =>
    cases h
    decide +kernel
  | some t =>
    simp only [Option.map_some, readOr, readLogLevel, readText, bind, Except.bind] at h
    split at h
    · rename_i hl
      cases h
      exact LogLevel.name_of_ofText? hl
    · cases h

theorem reads_of_load {env file : Environment} {s : Settings} (h : load env file = .ok s) :
    Reads env file s := by
  obtain ⟨hbaseUrl, hdescription, hdocsUrl, hlogLevel⟩ := ofValues_eq_ok h
  simp only [value?_eq] at hbaseUrl hdescription hdocsUrl hlogLevel
  rw [readOr_baseUrl, Except.ok.injEq] at hbaseUrl
  rw [readOr_optionalText, Except.ok.injEq] at hdescription hdocsUrl
  exact ⟨hbaseUrl.symm, hdescription.symm, hdocsUrl.symm, name_of_readOr_logLevel hlogLevel⟩

/-! ## What settings are -/

/-- What holds of settings from texts, whatever the texts are. -/
structure IsTidy (s : Settings) : Prop where
  baseUrl_ne : s.baseUrl ≠ ""
  baseUrl_front : ∀ c, s.baseUrl.toList.head? = some c → isSpace c = false
  baseUrl_back : s.baseUrl = "/" ∨ s.baseUrl.toList.getLast? ≠ some '/'
  description : ∀ t, s.description = some t → t ≠ "" ∧ IsBare isBlank t.toList
  docsUrl : ∀ t, s.docsUrl = some t → t ≠ "" ∧ IsBare isBlank t.toList
  logLevel : s.logLevel.name ∈ ["DEBUG", "INFO", "WARNING", "ERROR", "CRITICAL"]

theorem isBare_address (env file : Environment) : IsBare isSpace (address env file).toList := by
  rw [address, toList_trim]
  exact isBare_dropEnds _ _

theorem Reads.isTidy {env file : Environment} {s : Settings} (h : Reads env file s) : s.IsTidy where
  baseUrl_ne := h.baseUrl ▸ withoutEndSlashes_ne_empty _
  baseUrl_front c hc := by
    rw [h.baseUrl] at hc
    rcases head?_withoutEndSlashes hc with rfl | hc
    · decide +kernel
    · exact (isBare_address env file).front c hc
  baseUrl_back := h.baseUrl ▸ getLast?_withoutEndSlashes _
  description t ht := by
    obtain ⟨given, -, hgiven⟩ := Option.bind_eq_some_iff.mp (h.description ▸ ht)
    exact isBare_keptText? hgiven
  docsUrl t ht := by
    obtain ⟨given, -, hgiven⟩ := Option.bind_eq_some_iff.mp (h.docsUrl ▸ ht)
    exact isBare_keptText? hgiven
  logLevel := s.logLevel.name_mem

/-! ## What documents show of settings -/

/-- A document shows the base address of settings as its server, and description and address of
documentation if there are such. -/
structure IsShownIn (s : Settings) (j : Json) : Prop where
  baseUrl : j.get? "servers" = some (.arr [.obj [("url", .str s.baseUrl)]])
  description : (j.get? "info").bind (·.get? "description") = s.description.map .str
  docsUrl : j.get? "externalDocs" = s.docsUrl.map fun url => .obj [("url", .str url)]

theorem textEntry_eq (key : String) {text : Option String} (h : ∀ t, text = some t → t ≠ "") :
    textEntry key text = (text.map fun t => (key, Json.str t)).toList := by
  cases text with
  | none => rfl
  | some t => simp [textEntry, String.isEmpty_iff, h t rfl]

theorem IsTidy.isShownIn {s : Settings} (h : s.IsTidy) (paths : Entries PathItem) :
    s.IsShownIn (Document.mk s.about paths).toJson := by
  have hdescription := textEntry_eq "description" fun t ht => (h.description t ht).1
  have hdocsUrl := textEntry_eq "url" fun t ht => (h.docsUrl t ht).1
  refine ⟨rfl, ?_, ?_⟩
  · simp only [Document.toJson, about, hdescription]
    cases s.description <;> rfl
  · simp only [Document.toJson, about, hdocsUrl]
    cases s.docsUrl <;> rfl

end Settings

/-- What settings that are accepted look like.  They are read from the texts that are given, tidy,
and shown by documents as they are.  White space is left at the end of a base address exactly if
some stands right before the slashes that are dropped there.  The separators, which are not dropped
with white space, may also be left at its front. -/
theorem settings_in_normal_form {env file : Environment} {s : Settings}
    (h : Settings.load env file = .ok s) :
    Settings.Reads env file s ∧ s.IsTidy ∧
      (IsBare isSpace s.baseUrl.toList ↔
        ¬ IsLooseAddress isSpace (Settings.address env file)) ∧
      (IsBare isBlank s.baseUrl.toList ↔
        (∀ c, (Settings.address env file).toList.head? = some c → isBlank c = false) ∧
          ¬ IsLooseAddress isBlank (Settings.address env file)) ∧
      ∀ (c : Catalog) (procedures : List Procedure) (d : Document),
        (Document.underSettings c s procedures).outcome = .ok d → s.IsShownIn d.toJson := by
  have hreads := Settings.reads_of_load h
  refine ⟨hreads, hreads.isTidy, ?_, ?_, fun c procedures d hd => ?_⟩
  · rw [hreads.baseUrl, isBare_withoutEndSlashes_iff (by decide +kernel)]
    exact and_iff_right (Settings.isBare_address env file).front
  · rw [hreads.baseUrl, isBare_withoutEndSlashes_iff (by decide +kernel)]
  · obtain ⟨done, -, -, rfl⟩ := Document.build_eq_ok hd
    exact hreads.isTidy.isShownIn _

/-- An environment with texts that have white space and slashes at their ends. -/
def wideEnvironment : Environment :=
  [("OPENAPI_BASE_URL", " http://x// "), ("openapi_description", " d\t"), ("LOG_LEVEL", "debug ")]

def wideSettings : Settings :=
  { baseUrl := "http://x", description := some "d", logLevel := .debug }

/-- White space and slashes around the texts are dropped. -/
theorem settings_in_normal_form_wide :
    Settings.load wideEnvironment [] = .ok wideSettings ∧ wideSettings.IsTidy ∧
      IsBare isSpace wideSettings.baseUrl.toList ∧
      ∃ d, (Document.underSettings {} wideSettings []).outcome = .ok d ∧
        wideSettings.IsShownIn d.toJson := by
  have hload : Settings.load wideEnvironment [] = .ok wideSettings := by decide +kernel
  obtain ⟨-, htidy, hbare, -, hshown⟩ := settings_in_normal_form hload
  have hlast : (dropEnd (· = '/') (Settings.address wideEnvironment []).toList).getLast? =
      some 'x' := by decide +kernel
  refine ⟨hload, htidy, hbare.mpr fun hloose => ?_, ⟨wideSettings.about, []⟩, rfl,
    hshown {} [] _ rfl⟩
  obtain ⟨b, hb, hb'⟩ := (isLooseAddress_iff (by decide +kernel) _).mp hloose
  rw [hlast] at hb'
  cases hb'
  revert hb
  decide +kernel

/-- An environment with white space before the slash at the end of the base address. -/
def looseEnvironment : Environment := [("OPENAPI_BASE_URL", "http://x /")]

/-- The white space before a slash that is dropped stays. -/
theorem settings_leave_white_space :
    ∃ s, Settings.load looseEnvironment [] = .ok s ∧ s.baseUrl = "http://x " ∧
      ¬ IsBare isSpace s.baseUrl.toList := by
  have hload : Settings.load looseEnvironment [] = .ok { baseUrl := "http://x " } := by
    decide +kernel
  refine ⟨_, hload, rfl, fun hbare => ?_⟩
  exact absurd (hbare.back ' ' (by decide +kernel)) (by decide +kernel)

end Procedoc
