import Cronymax.Browser.WebviewScheme
import Cronymax.Text.Directives

/-! What an extension can do to the policy of its pages.  The header widens `connect-src` by what the
manifest declares for the served page, and changes nothing else, exactly if no declared text holds a
semicolon and the query of the URL is read where it stands. -/

namespace Cronymax.Browser

open Authority (Value)
open Paths (Name Path Step spell segments)
open Text (Directive directives spaced)

/-- The file lies in the directory of the extension that the URL names. -/
def Contained (host : Host) (extensionsRoot url : List Char) (served : Served) : Prop :=
  ∃ ext : Name Char, ext.text = extIdOf url ∧
    host.realpath (extensionsRoot ++ '/' :: ext.text) = some served.extDir ∧
    served.extDir <+: served.file

theorem resolveUrl_some {host : Host} {root url : List Char} {resolved : Resolved}
    (h : resolveUrl host root url = some resolved) :
    extIdOf url ≠ [] ∧
      ¬('/' ∈ extIdOf url ∨ '\\' ∈ extIdOf url ∨ extIdOf url = ['.'] ∨ extIdOf url = ['.', '.']) ∧
      host.realpath (extDirOf root url) = some resolved.extDir ∧
      spell resolved.extDir <+: spell resolved.file ∧
      ¬((spell resolved.extDir).length < (spell resolved.file).length ∧
        (spell resolved.file)[(spell resolved.extDir).length]? ≠ some '/') := by
  unfold resolveUrl at h
  split at h
  · cases h
  split at h
  · cases h
  rename_i hSome
  split at h
  · cases h
  rename_i hName
  split at h
  · cases h
  obtain ⟨extDir, hDir, h⟩ := Option.bind_eq_some_iff.mp h
  obtain ⟨file, hFile, h⟩ := Option.bind_eq_some_iff.mp h
  split at h
  · cases h
  rename_i hPrefix
  split at h
  · cases h
  rename_i hBoundary
  cases h
  refine ⟨hSome, hName, hDir, ?_, hBoundary⟩
  rw [← List.isPrefixOf_iff_prefix]
  simpa using hPrefix

theorem file_cases {resolved : Resolved} (hPrefix : spell resolved.extDir <+: spell resolved.file)
    (hBoundary : ¬((spell resolved.extDir).length < (spell resolved.file).length ∧
      (spell resolved.file)[(spell resolved.extDir).length]? ≠ some '/')) :
    resolved.file = resolved.extDir ∨
      ∃ rest, spell resolved.file = spell resolved.extDir ++ '/' :: rest := by
  obtain ⟨rest, hRest⟩ := hPrefix
  cases rest with
  | nil =>
    rw [List.append_nil] at hRest
    exact .inl (Paths.spell_injective hRest.symm)
  | cons c rest =>
    obtain rfl : c = '/' := by
      by_contra hNot
      refine hBoundary ⟨?_, ?_⟩
      · rw [← hRest, List.length_append, List.length_cons]
        omega
      · rw [← hRest, List.getElem?_append_right (Nat.le_refl _), Nat.sub_self]
        simpa using hNot
    exact .inr ⟨rest, hRest.symm⟩

theorem openUrl_resolved {host : Host} {root url : List Char} {served : Served}
    (h : openUrl host root url = some served) :
    resolveUrl host root url = some served.toResolved ∧
      served.surfaceIsRenderer = decide (lookupQueryValue url "surface".toList = "renderer".toList) := by
  obtain ⟨resolved, hResolved, h⟩ := Option.bind_eq_some_iff.mp h
  obtain ⟨body, -, h⟩ := Option.map_eq_some_iff.mp h
  cases h
  exact ⟨hResolved, rfl⟩

theorem contained {host : Host} {root url : List Char} {served : Served}
    (h : openUrl host root url = some served) : Contained host root url served := by
  obtain ⟨hSome, hName, hDir, hPrefix, hBoundary⟩ := resolveUrl_some (openUrl_resolved h).1
  obtain ⟨hSlash, -, hHere, hUp⟩ := by simpa only [not_or] using hName
  refine ⟨⟨extIdOf url, hSome, hHere, hUp, hSlash⟩, rfl, hDir, ?_⟩
  rcases file_cases hPrefix hBoundary with hSame | ⟨rest, hRest⟩
  · rw [hSame]
  · obtain ⟨rel, hFile, -⟩ := Paths.spell_below hRest
    exact ⟨rel, hFile.symm⟩

/-- The manifest lists the source for the renderer whose entry is this file. -/
def Declares (host : Host) (served : Served) (text : List Char) : Prop :=
  ∃ rel manifest renderer entry value, served.file = served.extDir ++ rel ∧
    manifestOf host (spell served.extDir) = some manifest ∧
    renderer ∈ renderersOf manifest ∧
    renderer.get "entry" = some (.string entry) ∧
    (Path.parse entry.toList).steps = rel.map Step.normal ∧
    Value.string value ∈ itemsOf ((renderer.get "csp").bind (·.get "connect_src")) ∧
    text = value.toList

theorem asStr_some {v : Value} {s : String} (h : v.asStr = some s) : v = .string s := by
  cases v <;> cases h
  rfl

theorem mem_textsOf {v : Option Value} {text : List Char} (h : text ∈ textsOf v) :
    ∃ value, Value.string value ∈ itemsOf v ∧ text = value.toList := by
  unfold textsOf at h
  split at h
  · obtain ⟨value, hValue, rfl⟩ := List.mem_map.mp h
    obtain ⟨item, hItem, hText⟩ := List.mem_filterMap.mp hValue
    exact ⟨value, asStr_some hText ▸ hItem, rfl⟩
  · cases h

theorem segments_dot (rest : List Char) : segments ('.' :: '/' :: rest) = ['.'] :: segments rest := by
  have hDot : segments ['.'] = [['.']] := Paths.segments_single (by decide) (by decide)
  exact (Paths.segments_append ['.'] rest).trans (by rw [hDot]; rfl)

theorem segments_slash (rest : List Char) : segments ('/' :: rest) = segments rest :=
  Paths.segments_slash rest

theorem steps_stripLeading (text : List Char) :
    (segments (stripLeading text)).filterMap Path.step = (segments text).filterMap Path.step := by
  fun_induction stripLeading text with
  | case1 rest ih =>
    rw [ih, segments_dot]
    exact (List.filterMap_cons_none Paths.step_dot).symm
  | case2 rest ih => rw [ih, segments_slash]
  | case3 text => rfl

theorem segments_stripLeading {text : List Char} {names : List (Name Char)}
    (h : segments text = names.map Name.text) : segments (stripLeading text) = names.map Name.text := by
  fun_induction stripLeading text with
  | case1 rest ih =>
    rw [segments_dot] at h
    cases names with
    | nil => cases h
    | cons n names => exact absurd (List.cons.inj h).1.symm n.notHere
  | case2 rest ih =>
    rw [segments_slash] at h
    exact ih h
  | case3 text => exact h

theorem requestSegments_spell {resolved : Resolved} {rest : List Char} {rel : List (Name Char)}
    (hRest : spell resolved.file = spell resolved.extDir ++ '/' :: rest)
    (hRel : segments rest = rel.map Name.text) :
    requestSegments (spell resolved.file) (spell resolved.extDir) = [] ∨
      requestSegments (spell resolved.file) (spell resolved.extDir) = rel.map Name.text := by
  unfold requestSegments
  split
  · exact .inl rfl
  · refine .inr ?_
    rw [hRest, ← List.singleton_append, ← List.append_assoc,
      List.drop_left' (by rw [List.length_append, List.length_singleton])]
    exact segments_stripLeading hRel

theorem isEntry_iff {request : List (List Char)} {renderer : Value} :
    isEntry request renderer = true ↔
      ∃ entry, renderer.get "entry" = some (.string entry) ∧ entry ≠ "" ∧
        splitPathSegments entry.toList = request := by
  unfold isEntry
  constructor
  · intro h
    split at h
    · cases h
    · rename_i entry hEntry
      obtain ⟨v, hGet, hText⟩ := Option.bind_eq_some_iff.mp hEntry
      exact ⟨entry, asStr_some hText ▸ hGet, of_decide_eq_true h⟩
  · rintro ⟨entry, hGet, hEntry⟩
    rw [hGet]
    exact decide_eq_true hEntry

theorem mem_declaredFor {manifest : Value} {request : List (List Char)} {text : List Char}
    (h : text ∈ declaredFor manifest request) :
    ∃ renderer ∈ renderersOf manifest, isEntry request renderer = true ∧ text ∈ connectSrc renderer := by
  unfold declaredFor at h
  split at h
  · cases h
  · rename_i renderer hFind
    exact ⟨renderer, List.mem_of_find?_eq_some hFind, List.find?_some hFind, h⟩

theorem lookup_declares {host : Host} {served : Served}
    (hPrefix : spell served.extDir <+: spell served.file)
    (hBoundary : ¬((spell served.extDir).length < (spell served.file).length ∧
      (spell served.file)[(spell served.extDir).length]? ≠ some '/')) :
    ∀ text ∈ lookupRendererConnectSrc host (spell served.extDir) (spell served.file),
      Declares host served text := by
  intro text hText
  unfold lookupRendererConnectSrc at hText
  split at hText
  · cases hText
  rename_i manifest hManifest
  split at hText
  · cases hText
  rename_i hRequest
  obtain ⟨renderer, hRenderer, hEntry, hText⟩ := mem_declaredFor hText
  obtain ⟨entry, hGet, -, hSegments⟩ := isEntry_iff.mp hEntry
  obtain ⟨value, hValue, rfl⟩ := mem_textsOf hText
  rcases file_cases hPrefix hBoundary with hSame | ⟨rest, hRest⟩
  · refine absurd (if_pos ?_) hRequest
    rw [hSame]
    omega
  · obtain ⟨rel, hFile, hRel⟩ := Paths.spell_below hRest
    have hNames := (requestSegments_spell hRest hRel).resolve_left hRequest
    refine ⟨rel, manifest, renderer, entry, value, hFile, hManifest, hRenderer, hGet, ?_, hValue, rfl⟩
    rw [Paths.steps_eq, ← steps_stripLeading]
    show (splitPathSegments entry.toList).filterMap Path.step = _
    rw [hSegments, hNames, Paths.filterMap_text]

/-- The query of a URL by its syntax. -/
def trueQueryOf (url : List Char) : List Char :=
  ((url.takeWhile (· ≠ '#')).dropWhile (· ≠ '?')).tail

/-- The query asks for the surface of a renderer. -/
def IsRendererRequest (url : List Char) : Prop :=
  queryValue "surface".toList ((trueQueryOf url).splitOn '&') = "renderer".toList

/-- No fragment begins before the first question mark. -/
def QueryFirst (url : List Char) : Prop := '#' ∉ url.takeWhile (· ≠ '?')

theorem trueQuery_first {url : List Char} (h : QueryFirst url) : trueQueryOf url = queryOf url := by
  unfold trueQueryOf queryOf
  unfold QueryFirst at h
  induction url with
  | nil => rfl
  | cons c url ih =>
    by_cases hMark : c = '?'
    · subst hMark
      rfl
    · rw [List.takeWhile_cons_of_pos (by simpa using hMark), List.mem_cons, not_or] at h
      rw [List.takeWhile_cons_of_pos (by simpa using Ne.symm h.1),
        List.dropWhile_cons_of_pos (by simpa using hMark),
        List.dropWhile_cons_of_pos (by simpa using hMark), ih h.2]

theorem trueQuery_hidden {url : List Char} (h : ¬QueryFirst url) : trueQueryOf url = [] := by
  unfold trueQueryOf
  unfold QueryFirst at h
  induction url with
  | nil => rfl
  | cons c url ih =>
    by_cases hHash : c = '#'
    · subst hHash
      rfl
    · by_cases hMark : c = '?'
      · subst hMark
        exact absurd (by simp) h
      · rw [List.takeWhile_cons_of_pos (by simpa using hMark), List.mem_cons, not_or] at h
        rw [List.takeWhile_cons_of_pos (by simpa using hHash),
          List.dropWhile_cons_of_pos (by simpa using hMark)]
        exact ih fun hRest => h ⟨Ne.symm hHash, hRest⟩

def connectDirective (listed : List (List Char)) : Directive :=
  ⟨"connect-src".toList, "'self'".toList ++ listed.flatMap (' ' :: ·)⟩

/-- The default policy with these sources. -/
def widened (listed : List (List Char)) : List Directive :=
  [⟨"default-src".toList, "'none'".toList⟩,
    ⟨"script-src".toList, "'self' 'unsafe-inline'".toList⟩,
    ⟨"style-src".toList, "'self' 'unsafe-inline'".toList⟩,
    ⟨"img-src".toList, "cronymax-webview: data:".toList⟩,
    connectDirective listed,
    ⟨"font-src".toList, "'self' data:".toList⟩]

/-- The header is the default one, or one with sources that are declared. -/
def OnlyWidens (host : Host) (url : List Char) (served : Served) (header : List Char) : Prop :=
  ∃ listed, (∀ text ∈ listed, Declares host served text) ∧
    (listed ≠ [] → IsRendererRequest url) ∧ directives header = widened listed

theorem buildCspHeader_eq (hosts : List (List Char)) : buildCspHeader hosts = spaced (widened hosts) := by
  unfold buildCspHeader kWebviewDefaultCsp widened connectDirective
  repeat rw [String.toList_ofList]
  split
  · rename_i hNone
    subst hNone
    rfl
  · rw [List.append_assoc]
    rfl

theorem connect_mem (listed : List (List Char)) : connectDirective listed ∈ widened listed :=
  .tail _ (.tail _ (.tail _ (.tail _ (.head _))))

theorem word_of_all {name : List Char} (h : name.all (· ≠ ' ') = true) : ∀ c ∈ name, c ≠ ' ' :=
  fun c hc => of_decide_eq_true (List.all_eq_true.mp h c hc)

theorem connect_plain {listed : List (List Char)} (h : ∀ text ∈ listed, ';' ∉ text) :
    (connectDirective listed).Plain := by
  have hName : "connect-src".toList ≠ [] := by decide
  have hWord : ∀ c ∈ "connect-src".toList, c ≠ ' ' := word_of_all (by decide)
  have hNameFree : ';' ∉ "connect-src".toList := by decide
  have hSelf : ';' ∉ "'self'".toList := by decide
  refine ⟨⟨hName, hWord⟩, fun hMem => ?_⟩
  rcases List.mem_append.mp hMem with hMem | hMem
  · exact hNameFree hMem
  rcases List.mem_cons.mp hMem with hBlank | hMem
  · cases hBlank
  rcases List.mem_append.mp hMem with hMem | hMem
  · exact hSelf hMem
  obtain ⟨text, hText, hMem⟩ := List.mem_flatMap.mp hMem
  rcases List.mem_cons.mp hMem with hBlank | hMem
  · cases hBlank
  · exact h text hText hMem

theorem widened_plain {listed : List (List Char)} (h : ∀ text ∈ listed, ';' ∉ text) :
    ∀ d ∈ widened listed, d.Plain := by
  intro d hd
  simp only [widened, List.mem_cons, List.not_mem_nil, or_false] at hd
  rcases hd with rfl | rfl | rfl | rfl | rfl | rfl
  case inr.inr.inr.inr.inl => exact connect_plain h
  all_goals
    repeat rw [String.toList_ofList]
    exact ⟨⟨by decide, word_of_all (by decide)⟩, by decide⟩

theorem free_of_widened {listed : List (List Char)} (h : ∀ d ∈ widened listed, ';' ∉ d.text) :
    ∀ text ∈ listed, ';' ∉ text := by
  intro text hText hMem
  refine h (connectDirective listed) (connect_mem listed) ?_
  refine List.mem_append_right _ (List.mem_cons_of_mem _ (List.mem_append_right _ ?_))
  exact List.mem_flatMap.mpr ⟨text, hText, List.mem_cons_of_mem _ hMem⟩

theorem widened_ne_nil (listed : List (List Char)) : widened listed ≠ [] := List.cons_ne_nil _ _

theorem directives_header {hosts : List (List Char)} (h : ∀ text ∈ hosts, ';' ∉ text) :
    directives (buildCspHeader hosts) = widened hosts := by
  rw [buildCspHeader_eq]
  exact Text.directives_spaced (widened_ne_nil hosts) (widened_plain h)

theorem free_of_directives {hosts listed : List (List Char)}
    (h : directives (buildCspHeader hosts) = widened listed) : ∀ text ∈ hosts, ';' ∉ text := by
  refine free_of_widened (Text.free_of_length (widened_ne_nil hosts) ?_)
  rw [← buildCspHeader_eq, h]
  rfl

theorem sources_none {hosts : List (List Char)} (h : widened hosts = widened []) : hosts = [] := by
  have hConnect : some (connectDirective hosts) = some (connectDirective []) :=
    congrArg (fun ds : List Directive => ds[4]?) h
  have hValue := congrArg Directive.value (Option.some.inj hConnect)
  have hNone : hosts.flatMap (' ' :: ·) = [] := List.append_cancel_left hValue
  cases hosts with
  | nil => rfl
  | cons text rest => cases hNone

/-- A renderer that declares sources is asked for by the query itself, and none of them has a semicolon.
-/
def Harmless (host : Host) (url : List Char) (served : Served) : Prop :=
  lookupQueryValue url "surface".toList = "renderer".toList →
    lookupRendererConnectSrc host (spell served.extDir) (spell served.file) ≠ [] →
      QueryFirst url ∧
        ∀ text ∈ lookupRendererConnectSrc host (spell served.extDir) (spell served.file), ';' ∉ text

theorem spell_nonempty (names : List (Name Char)) : spell names ≠ [] := by
  unfold spell
  split
  · exact List.cons_ne_nil _ _
  · rename_i hSome
    obtain ⟨n, rest, rfl⟩ := List.exists_cons_of_ne_nil hSome
    exact List.cons_ne_nil _ _

/-- The header of the response. -/
def policyOf (host : Host) (served : Served) : Option (List Char) :=
  (getResponseHeaders host (some served)).headers.lookup "Content-Security-Policy"

theorem policyOf_eq (host : Host) (served : Served) :
    policyOf host served = some (buildCspHeader (extraConnectSrc host served)) := rfl

/-- The policy widens `connect-src` only, and the file lies in the directory of the extension, exactly if
the declared texts hold no semicolon and the query is no part of the fragment. -/
theorem policy_widens_iff {host : Host} {root url : List Char} {served : Served}
    (hOpen : openUrl host root url = some served) :
    (Contained host root url served ∧
        ∃ header, policyOf host served = some header ∧ OnlyWidens host url served header) ↔
      Harmless host url served := by
  obtain ⟨hResolved, hSurface⟩ := openUrl_resolved hOpen
  obtain ⟨-, -, -, hPrefix, hBoundary⟩ := resolveUrl_some hResolved
  have hDeclares : ∀ text ∈ lookupRendererConnectSrc host (spell served.extDir) (spell served.file),
      Declares host served text := lookup_declares hPrefix hBoundary
  have hExtra : extraConnectSrc host served =
      if lookupQueryValue url "surface".toList = "renderer".toList then
        lookupRendererConnectSrc host (spell served.extDir) (spell served.file)
      else [] := by
    unfold extraConnectSrc
    simp only [hSurface, decide_eq_true_eq, spell_nonempty, ne_eq, not_false_eq_true, and_true]
  constructor
  · rintro ⟨-, header, hHeader, listed, -, hListed, hDirectives⟩ hAsked hSome
    rw [policyOf_eq, hExtra, if_pos hAsked, Option.some.injEq] at hHeader
    subst hHeader
    have hFree := free_of_directives hDirectives
    refine ⟨?_, hFree⟩
    by_contra hHidden
    have hNot : ¬IsRendererRequest url := by
      unfold IsRendererRequest
      rw [trueQuery_hidden hHidden]
      decide
    have hNone : listed = [] := by
      by_contra hListedSome
      exact hNot (hListed hListedSome)
    rw [directives_header hFree, hNone] at hDirectives
    exact hSome (sources_none hDirectives)
  · intro hHarmless
    refine ⟨contained hOpen, _, policyOf_eq host served, extraConnectSrc host served, ?_, ?_, ?_⟩
    · intro text hText
      rw [hExtra] at hText
      split at hText
      · exact hDeclares text hText
      · cases hText
    · intro hSome
      rw [hExtra] at hSome
      split at hSome
      · rename_i hAsked
        unfold IsRendererRequest
        rw [trueQuery_first (hHarmless hAsked hSome).1]
        exact hAsked
      · exact absurd rfl hSome
    · refine directives_header fun text hText => ?_
      rw [hExtra] at hText
      split at hText
      · rename_i hAsked
        exact (hHarmless hAsked (List.ne_nil_of_mem hText)).2 text hText
      · cases hText

def extName : Name Char := ⟨"m.ink".toList, by decide, by decide, by decide, by decide⟩

def rootName : Name Char := ⟨"ext".toList, by decide, by decide, by decide, by decide⟩

def pageName : Name Char := ⟨"r.html".toList, by decide, by decide, by decide, by decide⟩

def inkManifest (source : String) : Value :=
  .object [("contributes", .object [("cronymax.content.renderer", .array [.object
    [("entry", .string "./r.html"), ("csp", .object [("connect_src", .array [.string source])])]])])]

def inkText (source : String) : List Char :=
  "\x7b\"contributes\":\x7b\"cronymax.content.renderer\":[\x7b\"entry\":\"./r.html\",".toList ++
    "\"csp\":\x7b\"connect_src\":[\"".toList ++ source.toList ++ "\"]\x7d\x7d]\x7d\x7d".toList

def inkHost (source : String) : Host where
  realpath path :=
    if path = "/ext/m.ink".toList then some [rootName, extName]
    else if path = "/ext/m.ink/r.html".toList then some [rootName, extName, pageName]
    else none
  readFileBytes path :=
    if path = "/ext/m.ink/r.html".toList then some "<p>".toList
    else if path = "/ext/m.ink/cronymax-extension.json".toList then some (inkText source)
    else none
  parseJson raw := if raw = inkText source then some (inkManifest source) else none

def inkUrl : List Char := "cronymax-webview://m.ink/./a/../r.html?surface=%72enderer#top".toList

def inkPage : Served := ⟨⟨[rootName, extName], [rootName, extName, pageName]⟩, true, "<p>".toList⟩

theorem ink_opens (source : String) : openUrl (inkHost source) "/ext".toList inkUrl = some inkPage := by
  unfold inkUrl
  repeat rw [String.toList_ofList]
  rfl

theorem ink_queryFirst : QueryFirst inkUrl := by
  unfold QueryFirst inkUrl
  rw [String.toList_ofList]
  decide

theorem ink_declares : lookupRendererConnectSrc (inkHost "https://mermaid.ink") (spell inkPage.extDir)
    (spell inkPage.file) = ["https://mermaid.ink".toList] := by
  unfold inkHost inkText
  repeat rw [String.toList_ofList]
  rfl

theorem ink_extra {source : String} {texts : List (List Char)} (h : lookupRendererConnectSrc (inkHost source)
    (spell inkPage.extDir) (spell inkPage.file) = texts) : extraConnectSrc (inkHost source) inkPage = texts := by
  rw [extraConnectSrc, if_pos ⟨rfl, spell_nonempty _⟩, h]

/-- A renderer that declares one source, asked for by its query. -/
theorem ink_widens :
    openUrl (inkHost "https://mermaid.ink") "/ext".toList inkUrl = some inkPage ∧
      ∃ header, policyOf (inkHost "https://mermaid.ink") inkPage = some header ∧
        OnlyWidens (inkHost "https://mermaid.ink") inkUrl inkPage header := by
  have hOpen := ink_opens "https://mermaid.ink"
  refine ⟨hOpen, ((policy_widens_iff hOpen).mpr fun _ _ => ⟨ink_queryFirst, ?_⟩).2⟩
  rw [ink_declares, String.toList_ofList]
  decide

/-- A source with a semicolon brings a directive of its own. -/
theorem frames_allowed :
    openUrl (inkHost "https://mermaid.ink; frame-src *") "/ext".toList inkUrl = some inkPage ∧
      ¬∃ header, policyOf (inkHost "https://mermaid.ink; frame-src *") inkPage = some header ∧
        OnlyWidens (inkHost "https://mermaid.ink; frame-src *") inkUrl inkPage header := by
  refine ⟨ink_opens _, ?_⟩
  have hDeclares : lookupRendererConnectSrc (inkHost "https://mermaid.ink; frame-src *") (spell inkPage.extDir)
      (spell inkPage.file) = ["https://mermaid.ink; frame-src *".toList] := by
    unfold inkHost inkText
    repeat rw [String.toList_ofList]
    rfl
  rintro ⟨header, hHeader, listed, -, -, hDirectives⟩
  rw [policyOf_eq, ink_extra hDeclares, Option.some.injEq] at hHeader
  subst hHeader
  refine free_of_directives hDirectives _ (List.mem_singleton_self _) ?_
  rw [String.toList_ofList]
  decide

end Cronymax.Browser
