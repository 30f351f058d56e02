import RevBox.Support.Text
import RevBox.Support.Utf8
import RevBox.Zygisk.Session

/-!
# Zygisk — Requests

The request lines that the Agent writes (`handle_list_pro`, `handle_describe` and
`stage_pro_export` of `provider/zygisk.rs`), and what the module reads in them.  A package name has
passed `validate_package_name`; a locale is written as it came.

* `agrees_iff`: the module does what it is asked, or refuses, iff the locale is one word that fits
  into a line, or all that it is cut into is refused.
* `locale_smuggles_manifest`: a locale of two lines has the manifest listed.
-/

namespace RevBox.Zygisk

open CText

/-! ### The Agent -/

/-- `PackageScope`. -/
inductive PackageScope where
  | all
  | user
  | system

/-- `PackageScope` in a request. -/
def PackageScope.word : PackageScope → Bytes
  | all => lit "all"
  | user => lit "user"
  | system => lit "system"

/-- `validate_package_name`. -/
def validatePackageName (package : String) : Bool :=
  package ≠ "" && decide ((Utf8.encode package.toList).length ≤ 256) &&
    package.toList.all fun c => Text.isAsciiAlphanumeric c || c = '.' || c = '_' || c = '-'

/-- A package name that `validate_package_name` accepts. -/
structure PackageName where
  name : String
  valid : validatePackageName name = true

/-- The bytes of a name. -/
def PackageName.bytes (package : PackageName) : Bytes := Utf8.encode package.name.toList

/-- The requests that go to the module as one line. -/
inductive Request where
  | list (locale : Option String) (scope : PackageScope) (includeDisabled : Bool)
  | describe (package : PackageName)
  | export (package : PackageName)

/-- `locale_arg`. -/
def localeArg (locale : Option String) : Bytes := Utf8.encode (locale.getD "-").toList

/-- `u8::from(include_disabled)`. -/
def flag (includeDisabled : Bool) : Bytes := if includeDisabled then lit "1" else lit "0"

namespace Request

/-- The line, without its end. -/
def body : Request → Bytes
  | list locale scope includeDisabled =>
      lit "L" ++ 32 :: (localeArg locale ++ 32 :: (scope.word ++ 32 :: flag includeDisabled))
  | describe package => lit "P" ++ 32 :: package.bytes
  | «export» package => lit "E" ++ 32 :: package.bytes

/-- What is written. -/
def line (r : Request) : Bytes := r.body ++ [10]

/-- What is asked for. -/
def task : Request → Task
  | list locale scope includeDisabled => .list (localeArg locale) scope.word includeDisabled
  | describe package => .one package.bytes
  | «export» package => .files package.bytes

/-- The locale, if there is one, is one word, and the line fits into the module's buffer. -/
def Plain : Request → Prop
  | r@(list locale _ _) =>
      (∀ b ∈ localeArg locale, isSpace b = false ∧ b ≠ 0) ∧ r.body.length < 511
  | _ => True

end Request

/-- The line is refused. -/
def Verdict.isRefusal : Verdict → Bool
  | .refuse .. => true
  | _ => false

/-- Every line that the module reads from the request is refused. -/
def Refused (fused : Command → Bool) (stale : Bytes) (r : Request) : Prop :=
  session fused stale r.line ≠ [] ∧ ∀ v ∈ session fused stale r.line, v.isRefusal = true

/-- **Agreement**: the module is made to do what is asked for, and nothing else, or it refuses. -/
def Agrees (fused : Command → Bool) (stale : Bytes) (r : Request) : Prop :=
  session fused stale r.line = [.run r.task] ∨ Refused fused stale r

/-! ### One line -/

variable {fused : Command → Bool} {stale rest line w : Bytes} {c : Command} {v : Verdict}

theorem session_line (hn : line.length < 511) (hb : ∀ b ∈ line, b ≠ 10 ∧ b ≠ 13)
    (hne : line ≠ []) : session fused stale (line ++ [10]) = [(judge fused stale line).1] := by
  rw [session, lines_line [] hn hb hne, lines_nil, serve]
  split
  · next h => rw [h]
  · rfl

/-- Bytes that stay in a line, and end no word. -/
def Inner (b : UInt8) : Prop := isSpace b = false ∧ b ≠ 10 ∧ b ≠ 13 ∧ b ≠ 0

instance (b : UInt8) : Decidable (Inner b) := inferInstanceAs (Decidable (_ ∧ _))

theorem inner_of_all {s : Bytes} (h : (s.all fun b => Inner b) = true) : ∀ b ∈ s, Inner b :=
  fun b hb => of_decide_eq_true (List.all_eq_true.mp h b hb)

theorem inner_of_plain {b : UInt8} (hb : isSpace b = false) (h0 : b ≠ 0) : Inner b := by
  refine ⟨hb, fun h => ?_, fun h => ?_, h0⟩
  · rw [h] at hb
    cases hb
  · rw [h] at hb
    cases hb

theorem inner_command (c : Command) : ∀ b ∈ c.word, Inner b :=
  inner_of_all (by cases c <;> rfl)

theorem inner_scope (scope : PackageScope) : ∀ b ∈ scope.word, Inner b :=
  inner_of_all (by cases scope <;> rfl)

theorem inner_flag (disabled : Bool) : ∀ b ∈ flag disabled, Inner b :=
  inner_of_all (by cases disabled <;> rfl)

/-- Parts that stay in a line stay there together. -/
theorem stays_join {s t : Bytes} (hs : ∀ b ∈ s, b ≠ 10 ∧ b ≠ 13 ∧ b ≠ 0)
    (ht : ∀ b ∈ t, b ≠ 10 ∧ b ≠ 13 ∧ b ≠ 0) :
    ∀ b ∈ s ++ 32 :: t, b ≠ 10 ∧ b ≠ 13 ∧ b ≠ 0 := by
  intro b hb
  rcases List.mem_append.mp hb with hb | hb
  · exact hs b hb
  · rcases List.mem_cons.mp hb with rfl | hb
    · decide
    · exact ht b hb

/-- **A command word with an argument** comes to what the command makes of its argument. -/
theorem judge_command (hz : ∀ b ∈ rest, b ≠ 10 ∧ b ≠ 13 ∧ b ≠ 0) :
    judge fused stale (c.word ++ 32 :: rest) =
      (if fused c then .refuse c.framed (lit "method_fused") c.word
        else judgeCommand (argument stale rest) c, argument stale rest) := by
  have hread : CText.word 7 (c.word ++ 32 :: rest) = some (c.word, 32 :: rest) := by
    refine word_append (fun b hb => (inner_command c b hb).1) ?_ ?_
      fun b hb => Option.some.inj hb ▸ rfl
    · cases c <;> decide
    · cases c <;> decide
  have hfind : findHandler c.word = some c := by cases c <;> rfl
  have hhello : (lit "H ").isPrefixOf (c.word ++ 32 :: rest) = false := by cases c <;> rfl
  have htext : cString (c.word ++ 32 :: rest) = c.word ++ 32 :: rest :=
    cString_of_plain fun b hb => (stays_join (fun b hb => (inner_command c b hb).2) hz b hb).2.2
  have hclose : c.word ++ 32 :: rest ≠ lit "X" := fun h => by
    have := congrArg List.length h
    have hone : c.word.length = 1 := by cases c <;> rfl
    simp [hone, lit] at this
  have harg : argument stale (32 :: rest) = argument stale rest := by
    simp only [argument, skip_blank (show isSpace 32 = true from rfl)]
  simp only [judge, hhello, Bool.false_eq_true, if_false, htext, if_neg hclose, hread, hfind, harg]
  split <;> rfl

theorem argument_eq (hr : rest ≠ []) (hh : ∀ b ∈ rest.head?, isSpace b = false)
    (hb : ∀ b ∈ rest, b ≠ 10) : argument stale rest = rest.take 503 := by
  have htake : (rest.takeWhile fun b => b ≠ 10) = rest :=
    List.takeWhile_eq_self_iff.mpr fun b h => decide_eq_true (hb b h)
  have hne : rest.take 503 ≠ [] := by
    obtain ⟨b, rest, rfl⟩ := List.exists_cons_of_ne_nil hr
    simp
  simp only [argument, skip_of_head hh, upToNewline, htake, if_neg hne]

/-! ### Lists -/

/-- What `L` accepts is a locale in its own characters. -/
theorem judgeList_run {locale scope : Bytes} {disabled : Bool}
    (h : judgeList rest = .run (.list locale scope disabled)) :
    locale = lit "-" ∨ locale.length ≤ 35 ∧ locale.all inLocale = true := by
  unfold judgeList at h
  dsimp only at h
  split at h
  · cases h
  split at h
  · cases h
  split at h
  · cases h
  split at h
  · cases h
  · next hlocale _ =>
      cases h
      by_cases hd : locale = lit "-"
      · exact .inl hd
      · exact .inr (not_not.mp fun hn => hlocale ⟨hd, hn⟩)

/-- A first argument that is no locale is refused. -/
theorem judgeList_refuses {locale more : Bytes} (h : CText.word 127 rest = some (locale, more))
    (hd : locale ≠ lit "-") (hl : ¬ (locale.length ≤ 35 ∧ locale.all inLocale = true)) :
    (judgeList rest).isRefusal = true := by
  simp only [judgeList, h]
  split
  · rfl
  · rw [if_pos ⟨hd, hl⟩]
    rfl

theorem length_scope (scope : PackageScope) : scope.word ≠ [] ∧ scope.word.length ≤ 6 := by
  cases scope <;> decide

/-- **The arguments of `L`**: a locale, a scope and a flag are read as they were written. -/
theorem judgeList_args {locale : Bytes} {scope : PackageScope} {disabled : Bool}
    (hb : ∀ b ∈ locale, isSpace b = false) (hne : locale ≠ []) (hn : locale.length ≤ 127) :
    judgeList (locale ++ 32 :: (scope.word ++ 32 :: flag disabled)) =
        .run (.list locale scope.word disabled) ∨
      (judgeList (locale ++ 32 :: (scope.word ++ 32 :: flag disabled))).isRefusal = true := by
  have hlocale : CText.word 127 (locale ++ 32 :: (scope.word ++ 32 :: flag disabled)) =
      some (locale, 32 :: (scope.word ++ 32 :: flag disabled)) :=
    word_append hb hne hn fun b h => Option.some.inj h ▸ rfl
  have hscope : CText.word 15 (32 :: (scope.word ++ 32 :: flag disabled)) =
      some (scope.word, 32 :: flag disabled) := by
    rw [word_blank rfl]
    exact word_append (fun b h => (inner_scope scope b h).1) (length_scope scope).1
      ((length_scope scope).2.trans (by decide)) fun b h => Option.some.inj h ▸ rfl
  by_cases hl : locale ≠ lit "-" ∧ ¬ (locale.length ≤ 35 ∧ locale.all inLocale = true)
  · exact .inr (judgeList_refuses hlocale hl.1 hl.2)
  · left
    simp only [judgeList, hlocale, hscope, if_neg hl]
    cases scope <;> cases disabled <;> rfl

theorem list_agrees {locale : Option String} {scope : PackageScope} {disabled : Bool}
    (hplain : (Request.list locale scope disabled).Plain) :
    Agrees fused stale (.list locale scope disabled) := by
  obtain ⟨hb, hn⟩ := hplain
  generalize hloc : localeArg locale = loc at hb
  have hbody : (Request.list locale scope disabled).body =
      Command.l.word ++ 32 :: (loc ++ 32 :: (scope.word ++ 32 :: flag disabled)) := by
    rw [Request.body, hloc]
    rfl
  have hrest : ∀ b ∈ loc ++ 32 :: (scope.word ++ 32 :: flag disabled), b ≠ 10 ∧ b ≠ 13 ∧ b ≠ 0 :=
    stays_join (fun b h => (inner_of_plain (hb b h).1 (hb b h).2).2)
      (stays_join (fun b h => (inner_scope scope b h).2) fun b h => (inner_flag disabled b h).2)
  have hsession : session fused stale (Request.list locale scope disabled).line =
      [if fused .l then .refuse true (lit "method_fused") Command.l.word
        else judgeList (argument stale (loc ++ 32 :: (scope.word ++ 32 :: flag disabled)))] := by
    rw [Request.line, session_line hn ?_ ?_, hbody, judge_command hrest]
    · rfl
    · intro b h
      rw [hbody] at h
      have := stays_join (fun b hb => (inner_command .l b hb).2) hrest b h
      exact ⟨this.1, this.2.1⟩
    · rw [hbody]
      exact List.cons_ne_nil _ _
  have hone : ∀ {v}, v = Verdict.run (.list loc scope.word disabled) ∨ v.isRefusal = true →
      session fused stale (Request.list locale scope disabled).line = [v] →
      Agrees fused stale (.list locale scope disabled) := by
    rintro v (rfl | hv) hs
    · exact .inl (by rw [hs, Request.task, hloc])
    · refine .inr ⟨by rw [hs]; exact List.cons_ne_nil _ _, fun u hu => ?_⟩
      rw [hs] at hu
      exact List.mem_singleton.mp hu ▸ hv
  refine hone ?_ hsession
  split
  · exact .inr rfl
  by_cases hne : loc = []
  · -- the scope is read in place of the locale, and the flag in place of the scope
    subst hne
    right
    cases scope <;> cases disabled <;> rfl
  · have hhead : ∀ b ∈ (loc ++ 32 :: (scope.word ++ 32 :: flag disabled)).head?,
        isSpace b = false := by
      obtain ⟨b, loc', rfl⟩ := List.exists_cons_of_ne_nil hne
      exact fun c hc => Option.some.inj hc ▸ (hb b List.mem_cons_self).1
    rw [argument_eq (by simp [hne]) hhead fun b h => (hrest b h).1]
    have hflaglen : (flag disabled).length = 1 := by cases disabled <;> rfl
    by_cases hlong : loc.length ≤ 127
    · rw [List.take_of_length_le]
      · exact judgeList_args (fun b h => (hb b h).1) hne hlong
      · have := (length_scope scope).2
        simp only [List.length_append, List.length_cons, hflaglen]
        omega
    · right
      have htake : loc.take 127 ++ (loc.drop 127 ++ 32 :: (scope.word ++ 32 :: flag disabled)) =
          loc ++ 32 :: (scope.word ++ 32 :: flag disabled) := by
        rw [← List.append_assoc, List.take_append_drop]
      have hlen : (loc.take 127).length = 127 := List.length_take_of_le (by omega)
      rw [← htake, List.take_append, hlen, List.take_of_length_le (by omega)]
      refine judgeList_refuses (word_long (fun b h => (hb b (List.mem_of_mem_take h)).1) hlen
        (by decide) _) (fun h => ?_) fun h => ?_
      · rw [h] at hlen
        cases hlen
      · omega

/-! ### Packages -/

/-- What a byte of a package name is to the module. -/
def inPackage (b : UInt8) : Bool :=
  Inner b && !shellSpecial.contains b && !(lit " \t\r\n").contains b

theorem inPackage_of_char {c : Char} (h : Text.isAsciiAlphanumeric c = true ∨ c = '.' ∨ c = '_' ∨
    c = '-') : Utf8.isAscii c = true ∧ inPackage c.val.toUInt8 = true := by
  have hlow : c.toNat < 128 := by
    rcases h with h | rfl | rfl | rfl
    · simp only [Text.isAsciiAlphanumeric, Text.isAsciiDigit, Bool.or_eq_true, Bool.and_eq_true,
        decide_eq_true_eq] at h
      omega
    all_goals decide
  have hall : ∀ n < 128, (Text.isAsciiAlphanumeric (Char.ofNat n) = true ∨ Char.ofNat n = '.' ∨
      Char.ofNat n = '_' ∨ Char.ofNat n = '-') → inPackage (Char.ofNat n).val.toUInt8 = true := by
    decide +kernel
  refine ⟨Utf8.isAscii_iff.mpr (by omega), ?_⟩
  have := hall c.toNat hlow
  rw [Char.ofNat_toNat] at this
  exact this h

/-- **A package name is one argument without special characters.** -/
theorem package_plain (package : PackageName) : package.bytes ≠ [] ∧ package.bytes.length ≤ 256 ∧
    ∀ b ∈ package.bytes, inPackage b = true := by
  obtain ⟨name, hvalid⟩ := package
  simp only [validatePackageName, Bool.and_eq_true, decide_eq_true_eq, List.all_eq_true,
    Bool.or_eq_true] at hvalid
  obtain ⟨⟨hne, hsize⟩, hchars⟩ := hvalid
  have hchar : ∀ c ∈ name.toList, Utf8.isAscii c = true ∧ inPackage c.val.toUInt8 = true :=
    fun c hc => inPackage_of_char (by simpa [or_assoc] using hchars c hc)
  refine ⟨fun h => hne ?_, ?_, fun b hb => ?_⟩
  · have hempty : name.toList = [] := by
      cases hl : name.toList with
      | nil => rfl
      | cons c l =>
          have := Utf8.length_le_encode name.toList
          rw [show Utf8.encode name.toList = [] from h, hl] at this
          cases this
    exact String.toList_eq_nil_iff.mp hempty
  · exact hsize
  · obtain ⟨c, hc, hb⟩ := List.mem_flatMap.mp hb
    rw [Utf8.utf8EncodeChar_ascii (hchar c hc).1, List.mem_singleton] at hb
    exact hb ▸ (hchar c hc).2

theorem stays_package (package : PackageName) : ∀ b ∈ package.bytes, Inner b := fun b hb => by
  have := (package_plain package).2.2 b hb
  simp only [inPackage, Bool.and_eq_true, decide_eq_true_eq] at this
  exact this.1.1

theorem argument_package (package : PackageName) :
    argument stale package.bytes = package.bytes := by
  obtain ⟨hne, hlen, -⟩ := package_plain package
  rw [argument_eq hne _ fun b hb => (stays_package package b hb).2.1]
  · exact List.take_of_length_le (hlen.trans (by decide))
  · exact fun b hb => (stays_package package b (List.mem_of_head? hb)).1

theorem special_package (package : PackageName) :
    package.bytes.any (fun b => shellSpecial.contains b) = false ∧
      package.bytes.any (fun b => (lit " \t\r\n").contains b) = false := by
  have h := (package_plain package).2.2
  simp only [inPackage, Bool.and_eq_true, Bool.not_eq_true'] at h
  exact ⟨List.any_eq_false.mpr fun b hb => by rw [(h b hb).1.2]; exact Bool.false_ne_true,
    List.any_eq_false.mpr fun b hb => by rw [(h b hb).2]; exact Bool.false_ne_true⟩

/-- A request for a package comes to the task, unless the command is fused. -/
theorem package_agrees {r : Request} {c : Command} {package : PackageName}
    (hr : r.body = c.word ++ 32 :: package.bytes)
    (hrun : judgeCommand package.bytes c = .run r.task) : Agrees fused stale r := by
  have hstay : ∀ b ∈ package.bytes, b ≠ 10 ∧ b ≠ 13 ∧ b ≠ 0 :=
    fun b hb => (stays_package package b hb).2
  have hone : c.word.length = 1 := by cases c <;> rfl
  have hs : session fused stale r.line = [(judge fused stale r.body).1] := by
    refine session_line ?_ (fun b hb => ?_) ?_
    · have := (package_plain package).2.1
      rw [hr, List.length_append, List.length_cons, hone]
      omega
    · rw [hr] at hb
      have := stays_join (fun b hb => (inner_command c b hb).2) hstay b hb
      exact ⟨this.1, this.2.1⟩
    · rw [hr]
      exact List.append_ne_nil_of_right_ne_nil _ (List.cons_ne_nil _ _)
  rw [hr, judge_command hstay, argument_package, hrun] at hs
  by_cases hf : fused c = true
  · right
    rw [if_pos hf] at hs
    refine ⟨by rw [hs]; exact List.cons_ne_nil _ _, fun v hv => ?_⟩
    rw [hs] at hv
    exact List.mem_singleton.mp hv ▸ rfl
  · rw [if_neg hf] at hs
    exact .inl hs

theorem describe_agrees (package : PackageName) : Agrees fused stale (.describe package) := by
  obtain ⟨hne, hlen, -⟩ := package_plain package
  obtain ⟨hspecial, hblank⟩ := special_package package
  refine package_agrees (c := .p) rfl ?_
  rw [judgeCommand, judgeDescribe, if_neg]
  · rfl
  · rintro (h | h | h | h)
    · exact hne h
    · rw [hblank] at h
      cases h
    · rw [hspecial] at h
      cases h
    · omega

theorem export_agrees (package : PackageName) : Agrees fused stale (.export package) := by
  obtain ⟨hne, hlen, -⟩ := package_plain package
  obtain ⟨hspecial, -⟩ := special_package package
  refine package_agrees (c := .e) rfl ?_
  rw [judgeCommand, judgeExport, if_neg]
  · rfl
  · rintro (h | h | h)
    · exact hne h
    · rw [hspecial] at h
      cases h
    · omega

/-! ### Every request -/

theorem inner_of_inLocale {b : UInt8} (h : inLocale b = true) : isSpace b = false ∧ b ≠ 0 := by
  have hall : ∀ n < 256, inLocale (UInt8.ofNat n) = true →
      isSpace (UInt8.ofNat n) = false ∧ UInt8.ofNat n ≠ 0 := by decide +kernel
  have := hall b.toNat b.toNat_lt
  rw [UInt8.ofNat_toNat] at this
  exact this h

/-- Only a command `L` has anything listed. -/
theorem judge_list {line locale scope : Bytes} {disabled : Bool}
    (h : (judge fused stale line).1 = .run (.list locale scope disabled)) :
    locale = lit "-" ∨ locale.length ≤ 35 ∧ locale.all inLocale = true := by
  unfold judge at h
  dsimp only at h
  generalize cString (if (lit "H ").isPrefixOf line then line.take 4 else line) = text at h
  split at h
  · cases h
  split at h
  · cases h
  split at h
  · cases h
  split at h
  · cases h
  · next c _ _ =>
      cases c with
      | l => exact judgeList_run h
      | s | i | m => cases h
      | p =>
          simp only [judgeCommand, judgeDescribe] at h
          split at h <;> cases h
      | e =>
          simp only [judgeCommand, judgeExport] at h
          split at h <;> cases h

/-- What is listed as it was asked for was one word in one line. -/
theorem plain_of_run {locale : Option String} {scope : PackageScope} {disabled : Bool}
    (h : session fused stale (Request.list locale scope disabled).line =
      [.run (Request.list locale scope disabled).task]) :
    (Request.list locale scope disabled).Plain := by
  have hlocale : localeArg locale = lit "-" ∨
      (localeArg locale).length ≤ 35 ∧ (localeArg locale).all inLocale = true := by
    rw [session] at h
    cases hl : lines 511 (Request.list locale scope disabled).line with
    | nil => simp [hl, serve] at h
    | cons line ls =>
        rw [hl, serve] at h
        split at h
        · cases h
        · exact judge_list (List.cons.inj h).1
  have hscope := (length_scope scope).2
  have hflag : (flag disabled).length = 1 := by cases disabled <;> rfl
  rcases hlocale with hd | ⟨hlen, hall⟩
  · refine ⟨fun b hb => ?_, ?_⟩
    · rw [hd] at hb
      rw [List.mem_singleton.mp hb]
      decide
    · simp only [Request.body, hd, List.length_append, List.length_cons, hflag]
      have : (lit "L").length = 1 ∧ (lit "-").length = 1 := ⟨rfl, rfl⟩
      omega
  · refine ⟨fun b hb => inner_of_inLocale (List.all_eq_true.mp hall b hb), ?_⟩
    simp only [Request.body, List.length_append, List.length_cons, hflag]
    have : (lit "L").length = 1 := rfl
    omega

/-- **Agent and module agree** iff the locale is one word of one line, or is refused. -/
theorem agrees_iff (fused : Command → Bool) (stale : Bytes) (r : Request) :
    Agrees fused stale r ↔ r.Plain ∨ Refused fused stale r := by
  cases r with
  | list locale scope disabled =>
      exact ⟨fun h => h.imp_left plain_of_run, fun h => h.elim list_agrees .inr⟩
  | describe package => exact ⟨fun _ => .inl trivial, fun _ => describe_agrees package⟩
  | «export» package => exact ⟨fun _ => .inl trivial, fun _ => export_agrees package⟩

/-- **Smuggled**: a locale with a line end in it has the manifest listed. -/
theorem locale_smuggles_manifest : ¬ ∀ fused stale r, Agrees fused stale r := by
  intro hall
  have hs : session (fun _ => false) [] (Request.list (some "x\nM") .all false).line =
      [.refuse true (lit "bad_request") (lit "L <locale|-> <all|user|system> <0|1>"),
        .run .manifest] := by
    have hline : (Request.list (some "x\nM") .all false).line =
        lit "L x" ++ 10 :: (lit "M all 0" ++ 10 :: []) := rfl
    have hstay : ∀ s : Bytes, (s.all fun b => b ≠ 10 ∧ b ≠ 13) = true →
        ∀ b ∈ s, b ≠ 10 ∧ b ≠ 13 := fun s h b hb => of_decide_eq_true (List.all_eq_true.mp h b hb)
    have hfirst := lines_line (n := 511) (lit "M all 0" ++ 10 :: []) (by decide)
      (hstay (lit "L x") rfl) (List.cons_ne_nil _ _)
    have hsecond := lines_line (n := 511) [] (by decide) (hstay (lit "M all 0") rfl)
      (List.cons_ne_nil _ _)
    rw [session, hline, hfirst, hsecond, lines_nil]
    rfl
  rcases hall (fun _ => false) [] (.list (some "x\nM") .all false) with h | ⟨-, h⟩
  · rw [hs] at h
    cases h
  · have := h (.run .manifest) (by rw [hs]; simp)
    cases this

end RevBox.Zygisk
