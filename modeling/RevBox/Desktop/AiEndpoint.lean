import RevBox.Desktop.CoreError
import RevBox.Support.Text
import RevBox.Support.Url
import Mathlib.Data.Bool.AllAny

/-!
# Desktop — AiEndpoint

The base URL of the translation service: what the settings accept (`services/config_service.rs`),
what saving the page accepts besides (`services/ai_service.rs`), and the URL that `curl` gets
together with the API key.

* `KeepsKey`: the key goes out encrypted or stays on this machine.
* `keepsKey_iff`: it does where the local name is followed by nothing but a port or a path.
* `agree_iff`: where the two validators say the same.
* `accepted_iff`: both.
-/

namespace RevBox.Ai

open Text

/-! ### The validators -/

/-- `str::to_ascii_lowercase`. -/
def toAsciiLowercase (s : List Char) : List Char := s.map Char.toLower

/-- `str::strip_prefix`. -/
def stripPrefix (pattern s : List Char) : Option (List Char) :=
  if startsWith pattern s then some (s.drop pattern.length) else none

/-- `str::ends_with`. -/
def endsWith (pattern s : List Char) : Bool := pattern.isSuffixOf s

/-- `char::is_ascii_whitespace`. -/
def isAsciiWhitespace (c : Char) : Bool :=
  c = ' ' || c = '\t' || c = '\n' || c = '\x0c' || c = '\r'

def https : List Char := "https://".toList

def http : List Char := "http://".toList

/-- The names of this machine. -/
def localNames : List (List Char) := ["127.0.0.1", "localhost", "[::1]"].map String.toList

/-- `::1`, without brackets. -/
def bareLoopback : List Char := "::1".toList

/-- An `https` address is of a size and has no white space. -/
def wellTyped (value : List Char) : Bool :=
  (String.ofList value).utf8ByteSize ≤ 512 && !value.any isAsciiWhitespace

/-- `is_valid_ai_base_url`. -/
def isValidAiBaseUrl (value : List Char) : Bool :=
  let value := trim value
  if value = [] then true
  else
    let lower := toAsciiLowercase value
    if startsWith https lower then wellTyped value
    else
      let rest := (stripPrefix http lower).getD []
      startsWith http lower && localNames.any fun name => startsWith name rest

/-- `validate_endpoint`. -/
def validateEndpoint (baseUrl : List Char) : Except CoreError Unit :=
  let lower := toAsciiLowercase baseUrl
  if startsWith https lower then .ok ()
  else
    let rest := (stripPrefix http lower).getD []
    let isLocal := (localNames.any fun name => startsWith name rest) ||
      startsWith bareLoopback rest
    if startsWith http lower && isLocal then .ok ()
    else .error (.invalidInput
      "接口地址要用 https（本机服务可以用 http://127.0.0.1…）；明文 http 会把 key 裸发出去")

/-- `completions_url`. -/
def completionsUrl (baseUrl : List Char) : List Char :=
  let trimmed := trimEndMatches '/' (trim baseUrl)
  if endsWith "/chat/completions".toList trimmed then trimmed
  else if endsWith "/v1".toList trimmed then trimmed ++ "/chat/completions".toList
  else trimmed ++ "/v1/chat/completions".toList

/-! ### What is asked of them -/

/-- Who reads the URL can talk to nobody in clear text but this machine.  Letters count alike in
either case. -/
def KeySafe (url : List Char) : Prop :=
  Url.scheme (toAsciiLowercase url) = some "https".toList ∨
    ∃ a, Url.authority (toAsciiLowercase url) = some a ∧ Url.host a ∈ localNames

/-- `translate` reads the setting without the white space around it, and asks nobody if it is
empty. -/
def KeepsKey (value : List Char) : Prop :=
  isValidAiBaseUrl value = true → trim value ≠ [] → KeySafe (completionsUrl (trim value))

/-- The two validators say the same. -/
def Agree (value : List Char) : Prop :=
  isValidAiBaseUrl value = true ↔ validateEndpoint value = .ok ()

/-! ### Where that is so -/

/-- Behind `http://` stands a local name, perhaps behind user information, and behind it nothing,
a port, or what ends the authority. -/
def AtLocalName (rest : List Char) : Prop :=
  ∃ info name tail, rest = info ++ (name ++ tail) ∧ Url.IsUserInfo info ∧
    (∀ c ∈ info, Url.endsAuthority c = false) ∧ name ∈ localNames ∧
    '@' ∉ tail.takeWhile (fun c => !Url.endsAuthority c) ∧
    (name = "[::1]".toList ∨ ∀ c ∈ tail.head?, c = ':' ∨ Url.endsAuthority c = true)

/-- A local address that the settings accept ends where its name does. -/
def Ends (value : List Char) : Prop :=
  ∀ rest, toAsciiLowercase (trim value) = http ++ rest →
    (localNames.any fun name => startsWith name rest) = true → AtLocalName rest

/-- The text begins with `http://` and a name. -/
def Names (names : List (List Char)) (s : List Char) : Prop :=
  ∃ name ∈ names, http ++ name <+: toAsciiLowercase s

/-- The text is not blank.  If no white space stands before it, an `https` address is well typed
and no local one is written `http://::1`.  If white space does, what follows is not acceptable. -/
structure Plain (value : List Char) : Prop where
  notBlank : trim value ≠ []
  typed : trimStart value = value → https <+: toAsciiLowercase value → wellTyped (trim value) = true
  bracketed : trimStart value = value → ¬ Names [bareLoopback] value
  indented : trimStart value ≠ value → ¬ Names localNames (trim value) ∧
    ¬ (https <+: toAsciiLowercase (trim value) ∧ wellTyped (trim value) = true)

/-! ### The endpoint read as a URL -/

theorem toLower_eq_iff {c d : Char} (hd : d.toNat < 0x41) : c.toLower = d ↔ c = d := by
  unfold Char.toLower
  split
  · next h =>
      have hlo : 'A'.val.toNat ≤ c.val.toNat := h.1
      have hhi : c.val.toNat ≤ 'Z'.val.toNat := h.2
      constructor
      · rintro rfl
        simp only [Char.toNat, UInt32.toNat_add] at hd
        simp at hd hlo hhi
        omega
      · rintro rfl
        simp only [Char.toNat] at hd
        simp at hd hlo hhi
        omega
  · rfl

theorem toLower_slash (c : Char) : c.toLower = '/' ↔ c = '/' := toLower_eq_iff (by decide)

theorem lower_trimEndMatches (s : List Char) :
    toAsciiLowercase (trimEndMatches '/' s) = trimEndMatches '/' (toAsciiLowercase s) := by
  have hreverse : (s.map Char.toLower).reverse = s.reverse.map Char.toLower :=
    List.map_reverse.symm
  have hslash : (fun d => decide (d = '/')) ∘ Char.toLower = fun d => decide (d = '/') := by
    funext c
    simp [Function.comp, toLower_slash]
  unfold toAsciiLowercase trimEndMatches
  rw [hreverse, List.dropWhile_map, hslash, List.map_reverse]

theorem trimEndMatches_append {c d : Char} (hd : d ≠ c) (p s : List Char) :
    trimEndMatches c (p ++ d :: s) = p ++ d :: trimEndMatches c s := by
  unfold trimEndMatches
  rw [List.reverse_append, List.reverse_cons, List.append_assoc, List.dropWhile_append]
  split
  · next h => simp [hd, List.isEmpty_iff.mp h]
  · simp

/-- Trimming takes characters off that all are the one. -/
theorem exists_trimmed (c : Char) (s : List Char) :
    ∃ r, s = trimEndMatches c s ++ r ∧ ∀ d ∈ r, d = c := by
  refine ⟨(s.reverse.takeWhile fun d => d = c).reverse, ?_, fun d hd => ?_⟩
  · unfold trimEndMatches
    rw [← List.reverse_append, List.takeWhile_append_dropWhile, List.reverse_reverse]
  · simpa using List.mem_takeWhile_imp (List.mem_reverse.mp hd)

/-- The endpoint is the base without its last slashes, with nothing or a path behind it. -/
theorem lower_completionsUrl (s : List Char) :
    ∃ suffix, (∀ c ∈ suffix.head?, c = '/') ∧ toAsciiLowercase (completionsUrl (trim s)) =
      trimEndMatches '/' (toAsciiLowercase (trim s)) ++ suffix := by
  have happend : ∀ a b, toAsciiLowercase (a ++ b) = toAsciiLowercase a ++ toAsciiLowercase b :=
    fun _ _ => List.map_append
  unfold completionsUrl
  rw [trim_trim]
  dsimp only
  split
  · exact ⟨[], by simp, by rw [lower_trimEndMatches, List.append_nil]⟩
  · split
    · exact ⟨toAsciiLowercase "/chat/completions".toList, by simp [toAsciiLowercase],
        by rw [happend, lower_trimEndMatches]⟩
    · exact ⟨toAsciiLowercase "/v1/chat/completions".toList, by simp [toAsciiLowercase],
        by rw [happend, lower_trimEndMatches]⟩

theorem takeWhile_append_stop {p : Char → Bool} {r : List Char} (hr : ∀ c ∈ r.head?, p c = false) :
    ∀ l : List Char, (l ++ r).takeWhile p = l.takeWhile p
  | [] => by
      cases r with
      | nil => rfl
      | cons c r => simp [hr c rfl]
  | c :: l => by
      rw [List.cons_append, List.takeWhile_cons, List.takeWhile_cons,
        takeWhile_append_stop hr l]

/-- A local name has nothing of a delimiter in it and does not end in a slash. -/
theorem localName_plain {name : List Char} (h : name ∈ localNames) :
    (∀ c ∈ name, Url.endsAuthority c = false ∧ c ≠ '@') ∧ ∃ n d, name = n ++ [d] ∧ d ≠ '/' := by
  simp only [localNames, List.map_cons, List.map_nil, List.mem_cons, List.not_mem_nil,
    or_false] at h
  rcases h with rfl | rfl | rfl
  · exact ⟨List.all_iff_forall_prop.mp (rfl), "127.0.0.".toList, '1',
      rfl, by decide⟩
  · exact ⟨List.all_iff_forall_prop.mp (rfl), "localhos".toList, 't',
      rfl, by decide⟩
  · exact ⟨List.all_iff_forall_prop.mp (rfl), "[::1".toList, ']',
      rfl, by decide⟩

/-- What the endpoint's authority is, of a base that begins with a local name. -/
theorem authority_completionsUrl {s rest : List Char}
    (hs : toAsciiLowercase (trim s) = http ++ rest)
    (hlocal : (localNames.any fun name => startsWith name rest) = true) :
    Url.scheme (toAsciiLowercase (completionsUrl (trim s))) = some "http".toList ∧
      Url.authority (toAsciiLowercase (completionsUrl (trim s))) =
        some (rest.takeWhile fun c => !Url.endsAuthority c) := by
  obtain ⟨suffix, hsuffix, hurl⟩ := lower_completionsUrl s
  obtain ⟨name, hname, hprefix⟩ := List.any_eq_true.mp hlocal
  obtain ⟨r, rfl⟩ := List.isPrefixOf_iff_prefix.mp hprefix
  obtain ⟨hplain, n, d, hn, hd⟩ := localName_plain hname
  have htrim : trimEndMatches '/' (http ++ (name ++ r)) =
      http ++ (name ++ trimEndMatches '/' r) := by
    have h := trimEndMatches_append hd (http ++ n) r
    rw [hn]
    simpa using h
  rw [hs, htrim] at hurl
  have hmk : toAsciiLowercase (completionsUrl (trim s)) =
      "http".toList ++ ':' :: '/' :: '/' :: (name ++ trimEndMatches '/' r ++ suffix) := by
    have hhttp : http = "http".toList ++ [':', '/', '/'] := rfl
    rw [hurl, hhttp]
    simp only [List.append_assoc, List.cons_append, List.nil_append]
  have hscheme : ∀ c ∈ "http".toList, Url.inScheme c = true :=
    List.all_eq_true.mp (rfl)
  have hne : "http".toList ≠ [] := by simp
  rw [hmk, Url.scheme_mk hne hscheme, Url.authority_mk hne hscheme]
  refine ⟨rfl, congrArg some ?_⟩
  obtain ⟨slashes, hr, hall⟩ := exists_trimmed '/' r
  have hstop : ∀ c ∈ slashes.head?, (!Url.endsAuthority c) = false := fun c hc => by
    rw [hall c (List.mem_of_mem_head? hc)]
    rfl
  rw [takeWhile_append_stop (fun c hc => by rw [hsuffix c hc]; rfl)]
  conv_rhs => rw [hr, ← List.append_assoc, takeWhile_append_stop hstop]

theorem head_localName {name : List Char} (h : name ∈ localNames) :
    name ≠ [] ∧ (name.head? = some '[' → name = "[::1]".toList) := by
  simp only [localNames, List.map_cons, List.map_nil, List.mem_cons, List.not_mem_nil,
    or_false] at h
  rcases h with rfl | rfl | rfl <;> simp

theorem no_colon_localName {name : List Char} (h : name ∈ localNames)
    (hne : name ≠ "[::1]".toList) : ':' ∉ name ∧ name.head? ≠ some '[' := by
  simp only [localNames, List.map_cons, List.map_nil, List.mem_cons, List.not_mem_nil,
    or_false] at h
  rcases h with rfl | rfl | rfl
  · simp
  · simp
  · exact absurd rfl hne

/-- **The host of an authority is a local name** exactly if what it is cut from stands at one. -/
theorem host_local_iff (rest : List Char) :
    Url.host (rest.takeWhile fun c => !Url.endsAuthority c) ∈ localNames ↔ AtLocalName rest := by
  constructor
  · intro hmem
    generalize ha : (rest.takeWhile fun c => !Url.endsAuthority c) = a at hmem
    have hall : ∀ c ∈ a, (!Url.endsAuthority c) = true := fun c hc => by
      rw [← ha] at hc
      exact List.mem_takeWhile_imp (p := fun c => !Url.endsAuthority c) hc
    obtain ⟨info, hinfo, hsplit, hat⟩ := Url.hostPort_split a
    obtain ⟨t, ht, hbehind⟩ := Url.host_split a
    rw [ht] at hsplit hat
    generalize Url.host a = name at hmem ht hsplit hat
    have hrest : rest = info ++ (name ++ (t ++ rest.dropWhile fun c => !Url.endsAuthority c)) := by
      conv_lhs => rw [← List.takeWhile_append_dropWhile (p := fun c => !Url.endsAuthority c)
        (l := rest), ha, hsplit]
      simp
    have hstop : ∀ c ∈ (rest.dropWhile fun c => !Url.endsAuthority c).head?,
        Url.endsAuthority c = true := fun c hc => by
      have h := List.head?_dropWhile_not (fun c => !Url.endsAuthority c) rest
      rw [show (rest.dropWhile fun c => !Url.endsAuthority c).head? = some c from hc] at h
      simpa using h
    refine ⟨info, name, _, hrest, hinfo, fun c hc => ?_, hmem, ?_, ?_⟩
    · simpa using hall c (by rw [hsplit]; simp [hc])
    · rw [Url.takeWhile_append_cut (fun c hc => hall c (by rw [hsplit]; simp [hc])) fun c hc => by
        simp [hstop c hc]]
      exact fun hmem => hat (by simp [hmem])
    · rcases hbehind with hbracket | hport
      · refine .inl ((head_localName hmem).2 ?_)
        rw [ht] at hbracket
        cases name with
        | nil => exact absurd rfl (head_localName hmem).1
        | cons c name => exact hbracket
      · refine .inr fun c hc => ?_
        cases t with
        | nil => exact .inr (hstop c hc)
        | cons d t => exact .inl (hport c hc)
  · rintro ⟨info, name, tail, rfl, hinfo, hclean, hname, hat, htail⟩
    obtain ⟨hplain, -⟩ := localName_plain hname
    have hcut : (info ++ (name ++ tail)).takeWhile (fun c => !Url.endsAuthority c) =
        info ++ (name ++ tail.takeWhile fun c => !Url.endsAuthority c) := by
      rw [Url.takeWhile_append_right (fun c hc => by simp [hclean c hc]),
        Url.takeWhile_append_right fun c hc => by simp [(hplain c hc).1]]
    rw [hcut]
    by_cases hbracket : name = "[::1]".toList
    · subst hbracket
      have hhost := @Url.host_bracket _ "::1".toList _ hinfo
        (List.all_iff_forall_prop.mp (rfl)) hat
      have hsame : '[' :: "::1".toList ++ ']' :: tail.takeWhile (fun c => !Url.endsAuthority c) =
          "[::1]".toList ++ tail.takeWhile fun c => !Url.endsAuthority c := by simp
      rw [hsame] at hhost
      rw [hhost]
      exact hname
    · have hends := htail.resolve_left hbracket
      obtain ⟨hcolon, hhead⟩ := no_colon_localName hname hbracket
      rw [Url.host_mk hinfo (fun c hc => ⟨fun h => hcolon (h ▸ hc), (hplain c hc).2⟩) hhead ?_ hat
        (head_localName hname).1]
      · exact hname
      · cases tail with
        | nil => exact .inl rfl
        | cons c tail =>
            rcases hends c rfl with rfl | hc
            · exact .inr rfl
            · exact .inl (by simp [hc])

/-! ### What the validators accept -/

theorem names_iff {names : List (List Char)} {s : List Char} : Names names s ↔
    ∃ rest, toAsciiLowercase s = http ++ rest ∧
      (names.any fun name => startsWith name rest) = true := by
  constructor
  · rintro ⟨name, hname, r, hr⟩
    refine ⟨name ++ r, by rw [← hr, List.append_assoc], List.any_eq_true.mpr ⟨name, hname, ?_⟩⟩
    exact List.isPrefixOf_iff_prefix.mpr (List.prefix_append _ _)
  · rintro ⟨rest, hrest, hany⟩
    obtain ⟨name, hname, hprefix⟩ := List.any_eq_true.mp hany
    rw [Names, hrest]
    exact ⟨name, hname, (List.prefix_append_right_inj _).mpr
      (List.isPrefixOf_iff_prefix.mp hprefix)⟩

theorem https_eq : https = ['h', 't', 't', 'p', 's', ':', '/', '/'] := rfl

theorem http_eq : http = ['h', 't', 't', 'p', ':', '/', '/'] := rfl

/-- An address is not both. -/
theorem not_https {names : List (List Char)} {s : List Char} (h : Names names s)
    (hs : https <+: toAsciiLowercase s) : False := by
  obtain ⟨name, -, r, hr⟩ := h
  obtain ⟨r', hr'⟩ := hs
  rw [← hr, https_eq, http_eq] at hr'
  simp only [List.cons_append, List.cons.injEq] at hr'
  exact absurd hr'.2.2.2.2.1 (by decide)

/-- The second leg of either validator. -/
theorem local_iff (names : List (List Char)) (s : List Char) :
    (startsWith http (toAsciiLowercase s) &&
      names.any fun name => startsWith name ((stripPrefix http (toAsciiLowercase s)).getD [])) =
        true ↔ Names names s := by
  rw [Bool.and_eq_true, names_iff]
  constructor
  · rintro ⟨hhttp, hany⟩
    obtain ⟨rest, hrest⟩ := List.isPrefixOf_iff_prefix.mp hhttp
    refine ⟨rest, hrest.symm, ?_⟩
    simpa [stripPrefix, ← hrest, startsWith] using hany
  · rintro ⟨rest, hrest, hany⟩
    have hhttp : startsWith http (http ++ rest) = true :=
      List.isPrefixOf_iff_prefix.mpr (List.prefix_append _ _)
    rw [hrest]
    refine ⟨hhttp, ?_⟩
    simpa [stripPrefix, hhttp] using hany

theorem startsWith_iff {p s : List Char} : startsWith p s = true ↔ p <+: s :=
  List.isPrefixOf_iff_prefix

/-- What the settings accept: nothing, an `https` address, or a local one. -/
theorem isValid_iff (value : List Char) : isValidAiBaseUrl value = true ↔
    trim value = [] ∨
      (https <+: toAsciiLowercase (trim value) ∧ wellTyped (trim value) = true) ∨
      Names localNames (trim value) := by
  unfold isValidAiBaseUrl
  dsimp only
  split
  · next hnil => simp [hnil]
  · next hne =>
      split
      · next hhttps =>
          have hnot : ¬ Names localNames (trim value) := fun hn =>
            not_https hn (startsWith_iff.mp hhttps)
          simp [hne, hnot, startsWith_iff.mp hhttps]
      · next hhttps =>
          rw [local_iff, ← startsWith_iff]
          simp [hne, hhttps]

/-- What the page accepts: an `https` address, or a local one. -/
theorem validate_iff (value : List Char) : validateEndpoint value = .ok () ↔
    https <+: toAsciiLowercase value ∨ Names (localNames ++ [bareLoopback]) value := by
  unfold validateEndpoint
  dsimp only
  split
  · next hhttps => simp [startsWith_iff.mp hhttps]
  · next hhttps =>
      rw [← local_iff, ← startsWith_iff]
      simp only [hhttps, List.any_append, List.any_cons, List.any_nil, Bool.or_false]
      split
      · next h => simp [h]
      · next h => simp [h]

/-- **The key is kept** exactly where a local address ends with its name. -/
theorem keepsKey_iff (value : List Char) : KeepsKey value ↔ Ends value := by
  constructor
  · intro hkeeps rest hrest hlocal
    have hne : trim value ≠ [] := fun hnil => by
      rw [hnil] at hrest
      cases hrest
    have hvalid := (isValid_iff value).mpr (.inr (.inr (names_iff.mpr ⟨rest, hrest, hlocal⟩)))
    obtain ⟨hscheme, hauthority⟩ := authority_completionsUrl hrest hlocal
    rcases hkeeps hvalid hne with hsafe | ⟨a, ha, hhost⟩
    · rw [hscheme] at hsafe
      simp at hsafe
    · rw [hauthority] at ha
      cases ha
      exact (host_local_iff rest).mp hhost
  · intro hends hvalid hne
    rcases (isValid_iff value).mp hvalid with hnil | ⟨⟨rest, hrest⟩, -⟩ | hlocal
    · exact absurd hnil hne
    · obtain ⟨suffix, -, hurl⟩ := lower_completionsUrl value
      refine .inl ?_
      have htrim : trimEndMatches '/' (toAsciiLowercase (trim value)) =
          "https".toList ++ ':' :: trimEndMatches '/' ('/' :: '/' :: rest) := by
        have hcut := trimEndMatches_append (c := '/') (d := ':') (by decide) "https".toList
          ('/' :: '/' :: rest)
        rw [← hrest, ← hcut]
        rfl
      rw [hurl, htrim, List.append_assoc, List.cons_append]
      exact Url.scheme_mk (by simp) (List.all_eq_true.mp (rfl)) _
    · obtain ⟨rest, hrest, hlocal⟩ := names_iff.mp hlocal
      exact .inr ⟨_, (authority_completionsUrl hrest hlocal).2,
        (host_local_iff rest).mpr (hends rest hrest hlocal)⟩

/-! ### Where the validators agree -/

theorem toLower_of_isWhitespace {c : Char} (h : isWhitespace c = true) : c.toLower = c := by
  unfold Char.toLower
  split
  · next hupper =>
      have hlo : 'A'.val.toNat ≤ c.toNat := hupper.1
      have hhi : c.toNat ≤ 'Z'.val.toNat := hupper.2
      simp only [isWhitespace, Bool.or_eq_true, Bool.and_eq_true, decide_eq_true_eq] at h
      simp at hlo hhi
      omega
  · rfl

/-- Text behind a prefix does not matter to it, if nothing of it can stand in the prefix. -/
theorem prefix_of_append {p l r : List Char} (h : p <+: l ++ r) (hr : ∀ c ∈ r, c ∉ p) :
    p <+: l := by
  rcases List.prefix_or_prefix_of_prefix h (List.prefix_append l r) with hp | ⟨t, rfl⟩
  · exact hp
  · have ht : t <+: r := (List.prefix_append_right_inj l).mp h
    cases t with
    | nil => simp
    | cons c t => exact absurd (by simp) (hr c (ht.subset (by simp)))

/-- White space behind a text does not matter to a prefix without any. -/
theorem prefix_lower_trim {p s : List Char} (hp : ∀ c ∈ p, isWhitespace c = false)
    (hs : trimStart s = s) : p <+: toAsciiLowercase s ↔ p <+: toAsciiLowercase (trim s) := by
  have hsplit : s = trim s ++ (s.reverse.takeWhile isWhitespace).reverse := by
    rw [trim, hs, trimEnd, ← List.reverse_append, List.takeWhile_append_dropWhile,
      List.reverse_reverse]
  have hlower : toAsciiLowercase s = toAsciiLowercase (trim s) ++
      toAsciiLowercase (s.reverse.takeWhile isWhitespace).reverse := by
    conv_lhs => rw [hsplit, toAsciiLowercase, List.map_append]
    rfl
  rw [hlower]
  refine ⟨fun h => prefix_of_append h fun c hc hmem => ?_,
    fun h => h.trans (List.prefix_append _ _)⟩
  obtain ⟨d, hd, rfl⟩ := List.mem_map.mp hc
  have hblank := List.mem_takeWhile_imp (List.mem_reverse.mp hd)
  rw [toLower_of_isWhitespace hblank] at hmem
  rw [hp d hmem] at hblank
  cases hblank

/-- White space before a text hides such a prefix. -/
theorem not_prefix_of_indented {p s : List Char} (hp : ∀ c ∈ p, isWhitespace c = false)
    (hne : p ≠ []) (hs : trimStart s ≠ s) : ¬ p <+: toAsciiLowercase s := by
  cases s with
  | nil => exact absurd rfl hs
  | cons b s =>
      have hb : isWhitespace b = true := by
        by_contra hb
        exact hs (List.dropWhile_cons_of_neg hb)
      cases p with
      | nil => exact absurd rfl hne
      | cons c p =>
          intro h
          obtain ⟨hcb, -⟩ := List.cons_prefix_cons.mp h
          rw [toLower_of_isWhitespace hb] at hcb
          have hc := hp c (by simp)
          rw [hcb, hb] at hc
          cases hc

theorem no_blank : (∀ c ∈ https, isWhitespace c = false) ∧
    ∀ name ∈ localNames ++ [bareLoopback], ∀ c ∈ http ++ name, isWhitespace c = false := by
  have hnames : ∀ name ∈ localNames ++ [bareLoopback],
      (http ++ name).all (fun c => isWhitespace c = false) = true := by decide
  exact ⟨List.all_iff_forall_prop.mp (by decide),
    fun name h => List.all_iff_forall_prop.mp (hnames name h)⟩

/-- No local name begins like the address without brackets. -/
theorem not_bracketed {s : List Char} (h : Names localNames s) : ¬ Names [bareLoopback] s := by
  rintro ⟨bare, hbare, hb⟩
  obtain ⟨name, hname, hn⟩ := h
  have hapart : ∀ name ∈ localNames, ∀ bare ∈ [bareLoopback],
      ¬ (http ++ name <+: http ++ bare) ∧ ¬ (http ++ bare <+: http ++ name) := by
    decide
  rcases List.prefix_or_prefix_of_prefix hn hb with h | h
  · exact (hapart name hname bare hbare).1 h
  · exact (hapart name hname bare hbare).2 h

theorem names_append {names names' : List (List Char)} {s : List Char} :
    Names (names ++ names') s ↔ Names names s ∨ Names names' s := by
  simp only [Names, List.mem_append, or_and_right, exists_or]

theorem names_trim {names : List (List Char)} {s : List Char}
    (hn : names ⊆ localNames ++ [bareLoopback]) (hs : trimStart s = s) :
    Names names s ↔ Names names (trim s) :=
  exists_congr fun name => and_congr_right fun hname =>
    prefix_lower_trim (no_blank.2 name (hn hname)) hs

theorem not_names_of_indented {names : List (List Char)} {s : List Char}
    (hn : names ⊆ localNames ++ [bareLoopback]) (hs : trimStart s ≠ s) : ¬ Names names s := by
  rintro ⟨name, hname, h⟩
  exact not_prefix_of_indented (no_blank.2 name (hn hname)) (by simp [http_eq]) hs h

/-- Nothing begins with `http`. -/
theorem not_names_nil {names : List (List Char)} : ¬ Names names [] := by
  rintro ⟨name, -, h⟩
  simp [http_eq, toAsciiLowercase] at h

theorem not_https_nil : ¬ https <+: toAsciiLowercase [] := by
  simp [https_eq, toAsciiLowercase]

/-- Three kinds of text, of which one rules out the others: where the settings and the page say the
same of text that no white space stands before. -/
theorem agree_of_apart {blank secure typed loc bare : Prop}
    (hblank : blank → ¬ secure ∧ ¬ loc ∧ ¬ bare) (hloc : loc → secure → False)
    (hbare : bare → secure → False) (hboth : loc → ¬ bare) :
    (blank ∨ (secure ∧ typed) ∨ loc ↔ secure ∨ loc ∨ bare) ↔
      ¬ blank ∧ (secure → typed) ∧ ¬ bare := by
  by_cases hs : secure
  · have hl : ¬ loc := fun h => hloc h hs
    have hb : ¬ bare := fun h => hbare h hs
    have hn : ¬ blank := fun h => (hblank h).1 hs
    simp [hs, hl, hb, hn]
  · by_cases hl : loc
    · have hn : ¬ blank := fun h => (hblank h).2.1 hl
      simp [hs, hl, hboth hl, hn]
    · by_cases hb : bare
      · have hn : ¬ blank := fun h => (hblank h).2.2 hb
        simp [hs, hl, hb, hn]
      · simp [hs, hl, hb]

/-- **The validators agree** exactly on plain text. -/
theorem agree_iff (value : List Char) : Agree value ↔ Plain value := by
  rw [Agree, isValid_iff, validate_iff, names_append]
  by_cases hs : trimStart value = value
  · -- either validator looks at the text itself
    have hhttps := prefix_lower_trim no_blank.1 hs
    have hlocal := @names_trim localNames value (List.subset_append_left _ _) hs
    have hbare := @names_trim [bareLoopback] value (List.subset_append_right _ _) hs
    have hnil : trim value = [] → ¬ https <+: toAsciiLowercase (trim value) ∧
        ¬ Names localNames (trim value) ∧ ¬ Names [bareLoopback] (trim value) := fun h => by
      rw [h]
      exact ⟨not_https_nil, not_names_nil, not_names_nil⟩
    rw [hhttps, hlocal, hbare, agree_of_apart hnil not_https not_https not_bracketed]
    constructor
    · rintro ⟨hblank, htyped, hbracketed⟩
      exact ⟨hblank, fun _ h => htyped (hhttps.mp h), fun _ h => hbracketed (hbare.mp h),
        fun h => absurd hs h⟩
    · intro hplain
      exact ⟨hplain.notBlank, fun h => hplain.typed hs (hhttps.mpr h),
        fun h => hplain.bracketed hs (hbare.mpr h)⟩
  · -- the page's validator sees the white space, and refuses
    have hhttps := not_prefix_of_indented no_blank.1 (by simp [https_eq]) hs
    have hlocal := @not_names_of_indented localNames value (List.subset_append_left _ _) hs
    have hbare := @not_names_of_indented [bareLoopback] value (List.subset_append_right _ _) hs
    rw [iff_false_right (not_or.mpr ⟨hhttps, not_or.mpr ⟨hlocal, hbare⟩⟩), not_or, not_or]
    constructor
    · rintro ⟨hblank, htyped, hnames⟩
      exact ⟨hblank, fun h => absurd h hs, fun h => absurd h hs, fun _ => ⟨hnames, htyped⟩⟩
    · intro hplain
      exact ⟨hplain.notBlank, (hplain.indented hs).2, (hplain.indented hs).1⟩

/-- **The key goes out encrypted or stays on this machine, and the validators agree**, exactly for
plain text in which a local address ends with its name. -/
theorem accepted_iff (value : List Char) :
    KeepsKey value ∧ Agree value ↔ Ends value ∧ Plain value :=
  and_congr (keepsKey_iff value) (agree_iff value)

/-- A remote host with a name that begins like the local one gets the key in clear text. -/
theorem key_to_a_stranger :
    ¬ ∀ value, KeepsKey value ∧ Agree value := by
  intro h
  have hkeeps := (h "http://localhost.evil.example/v1".toList).1 (by decide)
    (by decide)
  rcases hkeeps with hscheme | ⟨a, ha, hhost⟩
  · revert hscheme
    decide
  · have hauthority : Url.authority (toAsciiLowercase (completionsUrl (trim
        "http://localhost.evil.example/v1".toList))) = some "localhost.evil.example".toList := by
      rfl
    rw [hauthority] at ha
    cases ha
    revert hhost
    decide

end RevBox.Ai
