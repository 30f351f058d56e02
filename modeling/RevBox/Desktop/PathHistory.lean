import RevBox.Desktop.FsPolicyMirror
import RevBox.Support.Trim
import Mathlib.Data.List.Chain

/-!
# Desktop — PathHistory

The history of the remote file browser, `src/features/files/pathHistory.ts`: the paths a user has
been at, and the normaliser between what is typed and the list.

* `path_history`: the list is sound in every history whose typed texts are absolute, or come out
  normal with a `/` in front; going back and forward undo each other; and when normalising twice
  is normalising once.
* `relative_stays_unresolved`: a relative text is not normalised.
-/

namespace RevBox.RemotePaths

open FileTree

/-! ### The code -/

/-- The loop of `normalizeRemotePath`, of one segment. -/
def resolveStep (out : List Name) (segment : Name) : List Name :=
  if segment = [] ∨ segment = ['.'] then out
  else if segment = ['.', '.'] then out.dropLast
  else out ++ [segment]

/-- `normalizeRemotePath`. -/
def normalizeRemotePath (path : List Char) : List Char :=
  let trimmed := Text.jsTrim path
  if trimmed.head? ≠ some '/' then
    if trimmed ≠ [] then '/' :: trimmed else []
  else '/' :: Text.join '/' ((trimmed.splitOn '/').foldl resolveStep [])

/-- `PathHistory`. -/
structure PathHistory where
  entries : List (List Char)
  index : Nat
  deriving DecidableEq

/-- `initialHistory`. -/
def initialHistory (path : List Char) : PathHistory := ⟨[path], 0⟩

/-- `currentPath`. -/
def currentPath (h : PathHistory) : List Char := h.entries[h.index]?.getD ['/']

/-- `goTo`. -/
def goTo (h : PathHistory) (path : List Char) : PathHistory :=
  let target := normalizeRemotePath path
  if target = [] ∨ target = currentPath h then h
  else
    let entries := h.entries.take (h.index + 1) ++ [target]
    ⟨entries, entries.length - 1⟩

/-- `canGoBack`. -/
def canGoBack (h : PathHistory) : Bool := 0 < h.index

/-- `canGoForward`. -/
def canGoForward (h : PathHistory) : Bool := h.index + 1 < h.entries.length

/-- `goBack`. -/
def goBack (h : PathHistory) : PathHistory :=
  if canGoBack h then { h with index := h.index - 1 } else h

/-- `goForward`. -/
def goForward (h : PathHistory) : PathHistory :=
  if canGoForward h then { h with index := h.index + 1 } else h

/-- `parentOf`. -/
def parentOf (path : List Char) : Option (List Char) :=
  let segments := ((normalizeRemotePath path).splitOn '/').filter fun segment => segment ≠ []
  if segments = [] then none
  else
    let segments := segments.dropLast
    some (if segments = [] then ['/'] else '/' :: Text.join '/' segments)

/-- What a user does: types a path, goes back, forward, or to the directory above. -/
inductive Act where
  | goTo (path : List Char)
  | goBack
  | goForward
  | goUp

/-- The history after an act. -/
def act (h : PathHistory) : Act → PathHistory
  | .goTo path => goTo h path
  | .goBack => goBack h
  | .goForward => goForward h
  | .goUp =>
      match parentOf (currentPath h) with
      | some path => goTo h path
      | none => h

/-! ### What is promised -/

/-- A path in normal form: absolute, of proper names, with no slash at its end but the root's. -/
def Normal (path : List Char) : Prop := ∃ c, Clean c ∧ path = render c

/-- **The history is sound.** -/
structure Sound (h : PathHistory) : Prop where
  index : h.index < h.entries.length
  normal : ∀ path ∈ h.entries, Normal path
  moves : h.entries.IsChain (· ≠ ·)

/-- The condition on a text that is typed: it is blank, absolute, or normal with a `/` in
front. -/
def Proper (path : List Char) : Prop :=
  Text.jsTrim path = [] ∨ (Text.jsTrim path).head? = some '/' ∨ Normal ('/' :: Text.jsTrim path)

/-- The condition on an act. -/
def Act.Proper : Act → Prop
  | .goTo path => RemotePaths.Proper path
  | .goBack | .goForward | .goUp => True

/-- The condition for a text to be normalised once and for all: an absolute one leads to a path
whose last name does not end in white space, and a relative one is normal with a `/` in front. -/
def KeepsEnd (path : List Char) : Prop :=
  if (Text.jsTrim path).head? = some '/' then
    ∀ c, Leads [] ((Text.jsTrim path).splitOn '/') c → ∀ name, c.getLast? = some name →
      ∀ last, name.getLast? = some last → Text.isJsSpace last = false
  else Normal ('/' :: Text.jsTrim path)

/-! ### The normaliser -/

variable {c : List Name} {path : List Char} {h : PathHistory}

theorem leads_foldl : ∀ (segments out : List Name),
    Leads out segments (segments.foldl resolveStep out)
  | [], out => .done out
  | n :: segments, out => by
      rw [List.foldl_cons, resolveStep]
      split_ifs with hstay hparent
      · exact .stay hstay (leads_foldl segments out)
      · exact hparent ▸ .parent (leads_foldl segments _)
      · exact .child hstay hparent (leads_foldl segments _)

theorem clean_foldl : ∀ (segments out : List Name), Clean out → (∀ n ∈ segments, '/' ∉ n) →
    Clean (segments.foldl resolveStep out)
  | [], out, hout, _ => hout
  | n :: segments, out, hout, hsegments => by
      rw [List.forall_mem_cons] at hsegments
      rw [List.foldl_cons]
      refine clean_foldl segments _ ?_ hsegments.2
      rw [resolveStep]
      split_ifs with hstay hparent
      · exact hout
      · exact fun m hm => hout m (List.dropLast_subset out hm)
      · intro m hm
        rcases List.mem_append.mp hm with hm | hm
        · exact hout m hm
        · rw [List.mem_singleton.mp hm]
          exact ⟨hsegments.1, hstay, hparent⟩

/-- An absolute text is read as the path it leads to. -/
theorem normalize_absolute (habs : (Text.jsTrim path).head? = some '/') :
    ∃ c, Clean c ∧ Leads [] ((Text.jsTrim path).splitOn '/') c ∧
      normalizeRemotePath path = render c := by
  refine ⟨_, clean_foldl _ [] nofun (Text.not_mem_of_mem_splitOn '/' _), leads_foldl _ _, ?_⟩
  rw [normalizeRemotePath, if_neg (not_not_intro habs)]
  rfl

theorem normalize_relative (hrel : (Text.jsTrim path).head? ≠ some '/')
    (hne : Text.jsTrim path ≠ []) : normalizeRemotePath path = '/' :: Text.jsTrim path := by
  rw [normalizeRemotePath, if_pos hrel, if_pos hne]

theorem normalize_blank (hblank : Text.jsTrim path = []) : normalizeRemotePath path = [] := by
  simp [normalizeRemotePath, hblank]

/-- What is made of a proper text is normal, if anything. -/
theorem Proper.normal (hp : Proper path) (hne : normalizeRemotePath path ≠ []) :
    Normal (normalizeRemotePath path) := by
  by_cases hblank : Text.jsTrim path = []
  · exact absurd (normalize_blank hblank) hne
  by_cases habs : (Text.jsTrim path).head? = some '/'
  · obtain ⟨c, hc, -, heq⟩ := normalize_absolute habs
    exact ⟨c, hc, heq⟩
  · rw [normalize_relative habs hblank]
    exact (hp.resolve_left hblank).resolve_left habs

/-- The path above a path is absolute. -/
theorem parentOf_absolute {parent : List Char} (hp : parentOf path = some parent) :
    parent.head? = some '/' := by
  unfold parentOf at hp
  dsimp only at hp
  split at hp
  · cases hp
  · cases hp
    split <;> rfl

/-! ### Normalising twice -/

/-- The text of a path, up to its last name. -/
theorem render_concat (d : List Name) :
    ∃ front : List Char, ∀ n : Name, render (d ++ [n]) = front ++ '/' :: n := by
  by_cases hd : d = []
  · subst hd
    exact ⟨[], fun n => by simp [render, Text.join]⟩
  · exact ⟨render d, fun n => by simp [render, Text.join_concat '/' hd]⟩

theorem render_inj {c d : List Name} (hc : Clean c) (hd : Clean d) (heq : render c = render d) :
    c = d := by
  rw [← components_render hc, heq, components_render hd]

/-- Trimming the text of a path trims its last name. -/
theorem jsTrim_render (d : List Name) (n : Name) :
    Text.jsTrim (render (d ++ [n])) = render (d ++ [Text.jsTrimEnd n]) := by
  obtain ⟨front, hfront⟩ := render_concat d
  have hhead : Text.jsTrim (render (d ++ [n])) = Text.jsTrimEnd (render (d ++ [n])) := by
    unfold Text.jsTrim render
    rw [List.dropWhile_cons_of_neg (by decide)]
  rw [hhead, hfront, Text.jsTrimEnd_append front (by decide), ← hfront]

theorem splitOn_render (hc : ∀ n ∈ c, '/' ∉ n) (hne : c ≠ []) : (render c).splitOn '/' = [] :: c := by
  have h := List.splitOn_append_cons_self_of_not_mem (List.not_mem_nil (a := '/'))
    (List.intercalate ['/'] c)
  rw [List.splitOn_intercalate _ hc hne] at h
  exact h

/-- What proper names and one more name lead to. -/
theorem foldl_concat {d : List Name} (hd : Clean d) (n : Name) :
    ([] :: (d ++ [n])).foldl resolveStep [] = resolveStep d n := by
  have hself : d.foldl resolveStep [] = d :=
    (leads_foldl d []).unique (Leads.self [] fun m hm => (hd m hm).2)
  rw [List.foldl_cons, List.foldl_append, resolveStep, if_pos (.inl rfl), hself]
  rfl

theorem resolveStep_eq_iff {d : List Name} {n m : Name} (hn : ¬ Stay n ∧ n ≠ parentName) :
    resolveStep d m = d ++ [n] ↔ m = n := by
  unfold resolveStep
  refine ⟨fun heq => ?_, fun heq => ?_⟩
  · split_ifs at heq with hstay hparent
    · exact absurd (congrArg List.length heq) (by simp)
    · exact absurd (congrArg List.length heq) (by simp)
    · simpa using heq
  · subst heq
    rw [if_neg (show ¬ (m = [] ∨ m = ['.']) from hn.1), if_neg (show ¬ m = ['.', '.'] from hn.2)]

/-- The text of a path is left as it is unless its last name ends in white space. -/
theorem normalize_render_iff (hc : Clean c) : normalizeRemotePath (render c) = render c ↔
    ∀ name, c.getLast? = some name → ∀ last, name.getLast? = some last →
      Text.isJsSpace last = false := by
  rcases List.eq_nil_or_concat' c with rfl | ⟨d, n, rfl⟩
  · exact iff_of_true (by decide) nofun
  have hd : Clean d := fun m hm => hc m (List.mem_append_left _ hm)
  have hn := hc n (List.mem_append_right _ List.mem_cons_self)
  have hslash : '/' ∉ Text.jsTrimEnd n := fun hmem =>
    hn.1 ((List.rdropWhile_prefix Text.isJsSpace n).subset hmem)
  have hsplit : (render (d ++ [Text.jsTrimEnd n])).splitOn '/' = [] :: (d ++ [Text.jsTrimEnd n]) := by
    refine splitOn_render (fun m hm => ?_) (by simp)
    rcases List.mem_append.mp hm with hm | hm
    · exact (hd m hm).1
    · rw [List.mem_singleton.mp hm]
      exact hslash
  have hnormal : normalizeRemotePath (render (d ++ [n])) =
      render (resolveStep d (Text.jsTrimEnd n)) := by
    rw [normalizeRemotePath, jsTrim_render, hsplit, foldl_concat hd]
    rfl
  have hclean : Clean (resolveStep d (Text.jsTrimEnd n)) := by
    rw [← foldl_concat hd, ← hsplit]
    exact clean_foldl _ [] nofun (Text.not_mem_of_mem_splitOn '/' _)
  rw [hnormal]
  calc render (resolveStep d (Text.jsTrimEnd n)) = render (d ++ [n])
      ↔ resolveStep d (Text.jsTrimEnd n) = d ++ [n] :=
        ⟨render_inj hclean hc, congrArg render⟩
    _ ↔ Text.jsTrimEnd n = n := resolveStep_eq_iff hn.2
    _ ↔ ∀ last, n.getLast? = some last → Text.isJsSpace last = false :=
        Text.jsTrimEnd_eq_self_iff
    _ ↔ _ := by simp

/-- A text that is trimmed and normal is left as it is. -/
theorem normalize_normal (htrim : Text.jsTrim path = path) (hc : Clean c) (heq : path = render c) :
    normalizeRemotePath path = path := by
  have habs : (Text.jsTrim path).head? = some '/' := by
    rw [htrim, heq]
    rfl
  obtain ⟨d, -, hleads, hd⟩ := normalize_absolute habs
  rw [htrim, heq] at hleads
  rw [hd, hleads.unique (FsPolicy.leads_render hc), heq]

/-- **Normalising twice is normalising once** exactly for these texts. -/
theorem normalize_idempotent_iff (hne : Text.jsTrim path ≠ []) :
    normalizeRemotePath (normalizeRemotePath path) = normalizeRemotePath path ↔ KeepsEnd path := by
  unfold KeepsEnd
  split
  · next habs =>
      obtain ⟨c, hc, hleads, heq⟩ := normalize_absolute habs
      rw [heq, normalize_render_iff hc]
      exact ⟨fun h d hd => hd.unique hleads ▸ h, fun h => h c hleads⟩
  · next hrel =>
      have htrim : Text.jsTrim ('/' :: Text.jsTrim path) = '/' :: Text.jsTrim path := by
        rw [Text.jsTrim_cons (by decide), Text.jsTrimEnd_jsTrim]
      rw [normalize_relative hrel hne]
      constructor
      · intro h
        have habs : (Text.jsTrim ('/' :: Text.jsTrim path)).head? = some '/' := by
          rw [htrim]
          rfl
        obtain ⟨c, hc, -, heq⟩ := normalize_absolute habs
        exact ⟨c, hc, h.symm.trans heq⟩
      · rintro ⟨c, hc, heq⟩
        exact normalize_normal htrim hc heq

/-! ### The list -/

theorem initial_sound (hp : Normal path) : Sound (initialHistory path) where
  index := Nat.zero_lt_succ 0
  normal := fun _ hmem => List.mem_singleton.mp hmem ▸ hp
  moves := List.isChain_singleton path

theorem goTo_moved (hmoved : goTo h path ≠ h) :
    normalizeRemotePath path ≠ [] ∧ normalizeRemotePath path ≠ currentPath h ∧
      goTo h path = ⟨h.entries.take (h.index + 1) ++ [normalizeRemotePath path],
        (h.entries.take (h.index + 1)).length⟩ := by
  unfold goTo at hmoved ⊢
  dsimp only at hmoved ⊢
  split at hmoved
  · exact absurd rfl hmoved
  · next hstays =>
      rw [not_or] at hstays
      rw [if_neg (not_or.mpr hstays), List.length_append]
      exact ⟨hstays.1, hstays.2, rfl⟩

theorem goTo_sound (hs : Sound h) (hp : Proper path) : Sound (goTo h path) := by
  by_cases hmoved : goTo h path = h
  · rwa [hmoved]
  obtain ⟨hne, hnew, heq⟩ := goTo_moved hmoved
  rw [heq]
  refine ⟨by simp, fun p hmem => ?_, ?_⟩
  · rcases List.mem_append.mp hmem with hmem | hmem
    · exact hs.normal p (List.mem_of_mem_take hmem)
    · rw [List.mem_singleton.mp hmem]
      exact hp.normal hne
  · refine List.isChain_append.mpr ⟨hs.moves.take _, List.isChain_singleton _, ?_⟩
    rintro p hlast q ⟨⟩
    have hcurrent : currentPath h = p := by
      rw [Option.mem_def, List.getLast?_take, if_neg (Nat.succ_ne_zero _), Nat.add_sub_cancel,
        List.getElem?_eq_getElem hs.index, Option.some_or, Option.some.injEq] at hlast
      rw [currentPath, List.getElem?_eq_getElem hs.index, Option.getD_some, hlast]
    exact hcurrent ▸ hnew.symm

/-- An act keeps the list sound. -/
theorem act_sound (hs : Sound h) : ∀ {a : Act}, a.Proper → Sound (act h a)
  | .goTo path, hp => goTo_sound hs hp
  | .goBack, _ => by
      change Sound (goBack h)
      unfold goBack
      split
      · exact ⟨Nat.lt_of_le_of_lt (Nat.sub_le _ _) hs.index, hs.normal, hs.moves⟩
      · exact hs
  | .goForward, _ => by
      change Sound (goForward h)
      unfold goForward
      split
      · next hforward => exact ⟨of_decide_eq_true hforward, hs.normal, hs.moves⟩
      · exact hs
  | .goUp, _ => by
      change Sound (match parentOf (currentPath h) with
        | some path => goTo h path
        | none => h)
      split
      · next parent hparent =>
          have hhead := parentOf_absolute hparent
          refine goTo_sound hs (.inr (.inl ?_))
          cases parent with
          | nil => cases hhead
          | cons a rest =>
              cases hhead
              rw [Text.jsTrim_cons (by decide)]
              rfl
      · exact hs

theorem acts_sound : ∀ (as : List Act) {h : PathHistory}, Sound h → (∀ a ∈ as, a.Proper) →
    Sound (as.foldl act h)
  | [], _, hs, _ => hs
  | a :: as, _, hs, hp =>
      acts_sound as (act_sound hs (hp a List.mem_cons_self)) fun b hb =>
        hp b (List.mem_cons_of_mem _ hb)

/-- Back from where one went, and there again. -/
theorem goBack_goTo (hi : h.index < h.entries.length) (hmoved : goTo h path ≠ h) :
    currentPath (goTo h path) = normalizeRemotePath path ∧
      currentPath (goBack (goTo h path)) = currentPath h ∧
      goForward (goBack (goTo h path)) = goTo h path ∧
      (goTo h path).entries = h.entries.take (h.index + 1) ++ [normalizeRemotePath path] := by
  obtain ⟨-, -, heq⟩ := goTo_moved hmoved
  have hlength : (h.entries.take (h.index + 1)).length = h.index + 1 := by
    rw [List.length_take]
    omega
  rw [hlength] at heq
  have hback : goBack (goTo h path) =
      ⟨h.entries.take (h.index + 1) ++ [normalizeRemotePath path], h.index⟩ := by
    rw [heq]
    rfl
  rw [hback, heq]
  refine ⟨?_, ?_, ?_, rfl⟩
  · rw [currentPath, List.getElem?_append_right (Nat.le_of_eq hlength), hlength, Nat.sub_self]
    rfl
  · rw [currentPath, currentPath, List.getElem?_append_left (hlength.symm ▸ Nat.lt_succ_self _),
      List.getElem?_take_of_lt (Nat.lt_succ_self _)]
  · rw [goForward, if_pos (by simp [canGoForward, hlength])]

/-- **The history of remote paths.**  From a normal path, proper acts keep the list sound; back and
forward lead where they should, whatever was typed, and a move drops the forward entries; and
normalising twice is normalising once exactly where the text keeps its end. -/
theorem path_history (path : List Char) :
    (Normal path → ∀ as : List Act, (∀ a ∈ as, a.Proper) →
      Sound (as.foldl act (initialHistory path))) ∧
    (∀ h, h.index < h.entries.length → goTo h path ≠ h →
      currentPath (goTo h path) = normalizeRemotePath path ∧
      currentPath (goBack (goTo h path)) = currentPath h ∧
      goForward (goBack (goTo h path)) = goTo h path ∧
      (goTo h path).entries = h.entries.take (h.index + 1) ++ [normalizeRemotePath path]) ∧
    (Text.jsTrim path ≠ [] →
      (normalizeRemotePath (normalizeRemotePath path) = normalizeRemotePath path ↔
        KeepsEnd path)) :=
  ⟨fun hp as has => acts_sound as (initial_sound hp) has, fun _ => goBack_goTo,
    normalize_idempotent_iff⟩

theorem normal_root : Normal ['/'] := ⟨[], nofun, rfl⟩

/-- Down, up and back. -/
theorem sdcard_history :
    Sound ([Act.goTo "/sdcard//x/..".toList, .goUp, .goBack].foldl act (initialHistory ['/'])) ∧
      [Act.goTo "/sdcard//x/..".toList, .goUp, .goBack].foldl act (initialHistory ['/']) =
        ⟨["/".toList, "/sdcard".toList, "/".toList], 1⟩ := by
  refine ⟨(path_history _).1 normal_root _ ?_, by decide⟩
  simp only [List.forall_mem_cons]
  exact ⟨.inr (.inl (by decide)), trivial, trivial, nofun⟩

/-- **A relative text stays unresolved**: `a/../b` is put in the list as `/a/../b`, and
normalising that gives `/b`. -/
theorem relative_stays_unresolved :
    [Act.goTo "a/../b".toList].foldl act (initialHistory ['/']) =
        ⟨["/".toList, "/a/../b".toList], 1⟩ ∧
      ¬ Sound ⟨["/".toList, "/a/../b".toList], 1⟩ ∧
      normalizeRemotePath "a/../b".toList = "/a/../b".toList ∧
      normalizeRemotePath "/a/../b".toList = "/b".toList := by
  refine ⟨by decide, fun h => ?_, by decide, by decide⟩
  obtain ⟨c, hc, heq⟩ := h.normal "/a/../b".toList (by decide)
  have hkeep := normalize_normal (by decide) hc heq
  exact absurd hkeep (by decide)

end RevBox.RemotePaths
