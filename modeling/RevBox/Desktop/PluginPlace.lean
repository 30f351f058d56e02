import RevBox.Desktop.PluginInstall
import RevBox.Support.LexicalPath

/-!
# Desktop — PluginPlace

Where the commands of `PluginInstall` create, rename and delete: each call to the files is made
on some tree of directories, files and links, and its paths are read in that tree.  Between two
calls the tree may become any other.

* `InPlace`: what is touched is below the root, and what is deleted is the plugin's own.
* `files_stay_in_place`: so it is in every session, as long as ids are names of directories other
  than the two managed ones, versions lead nowhere outside, and no link is on the way.
-/

namespace RevBox.PluginInstall

open FileTree Prog

/-- What is on the disk. -/
abbrev Files := FileTree.Tree Unit

/-- A call, its answer, and the tree it was made on. -/
structure Event where
  tree : Files
  op : Op
  reply : Reply op

/-- The calls and their answers. -/
def calls (es : List Event) : List ((o : Op) × Reply o) := es.map fun e => ⟨e.op, e.reply⟩

/-- The command performs these calls and returns. -/
def Runs (h : Home) (c : Command) (es : List Event) : Prop := ∃ a, Trace (c.program h) (calls es) a

/-- What a call creates, renames or deletes. -/
def Touched (t : Files) (q : Path) : Op → Prop
  | .createDirAll p => ∃ d, d <+: p ∧ t.place d = .ok q ∧ t.get q = none
  | .rename p p' => t.place p = .ok q ∨ t.place p' = .ok q
  | .removeDirAll p | .copy _ p => t.place p = .ok q
  | _ => False

/-- What a call deletes, with all below it. -/
def Deleted (t : Files) (q : Path) : Op → Prop
  | .removeDirAll p => t.place p = .ok q
  | _ => False

/-- The directory of a plugin, its backups, and what a command that began when `N` says stages
for it. -/
def Own (h : Home) (id : List Char) (N : Nat → Prop) (q : Path) : Prop :=
  h.root ++ [id] <+: q ∨ h.root ++ [backupsDir, id] <+: q ∨
    ∃ name, q = h.root ++ [stagingDir, name] ∧
      (name = trashName h id ∨ ∃ n, N n ∧ name = stagedName h n)

/-- The clock said `n` in the course of the command. -/
def Clocked (es : List Event) (n : Nat) : Prop := ⟨.millis, n⟩ ∈ calls es

/-- **A call stays in the plugin's own place.** -/
structure InPlace (h : Home) (id : List Char) (es : List Event) (e : Event) : Prop where
  below : ∀ q, Touched e.tree q e.op → h.root <+: q ∧ q ≠ h.root
  own : ∀ q, Deleted e.tree q e.op → Own h id (Clocked es) q

/-- The plugin a command is about: that of its source, or the one that is named. -/
def About (id : List Char) (c : Command) (es : List Event) : Prop :=
  (∀ src m, ⟨.source src, some m⟩ ∈ calls es → m.id = id) ∧
  match c with
  | .scan | .install _ => True
  | .rollback i | .setEnabled i _ | .uninstall i => id = i

/-- The answers agree with the tree: what is said to be there can be reached, and the entries of a
directory are its entries. -/
def Honest (e : Event) : Prop :=
  match e.op, e.reply with
  | .present p, r => r = true ↔ ∃ q, e.tree.resolve p = .ok q
  | .readDir p, r => ∀ names, r = some names → ∃ q, e.tree.resolve p = .ok q ∧
      ∀ n ∈ names, e.tree.get (q ++ [n.1]) ≠ none
  | _, _ => True

/-- An id that can name a directory of its own in the root. -/
def OwnId (id : List Char) : Prop := ValidName id ∧ id ≠ backupsDir ∧ id ≠ stagingDir

instance (id : List Char) : Decidable (OwnId id) := inferInstanceAs (Decidable (_ ∧ _))

/-- A version that leads nowhere outside when it is made part of the path of a backup. -/
def TameVersion (version : List Char) : Prop :=
  ∀ ts, ¬ Escapes [] (components (Text.decimal ts ++ '-' :: version))

/-- The root is there, the version that is to be moved away is tame, and no link is on the way of
what is touched. -/
def Sound (h : Home) (e : Event) : Prop :=
  e.tree.isDir h.root = true ∧
  match e.op, e.reply with
  | .manifest _, r => ∀ m, r = some m → TameVersion m.version
  | .createDirAll p, _ => ∀ d, d <+: p → e.tree.Direct d
  | .rename p q, _ => e.tree.Direct p ∧ e.tree.Direct q
  | .removeDirAll p, _ | .copy _ p, _ => e.tree.Direct p
  | _, _ => True

/-! ### Paths -/

section Paths

variable {h : Home} {id : List Char} {N : Nat → Prop} {p q : Dir} {t : Files}

/-- A component that leads to a child. -/
def Proper (n : Name) : Prop := ¬ Stay n ∧ n ≠ parentName

instance (n : Name) : Decidable (Proper n) := inferInstanceAs (Decidable (_ ∧ _))

/-- A path that begins with the root and a child of it and never leaves that. -/
def Below (h : Home) (p : Dir) : Prop :=
  ∃ x ns, p = h.root ++ x :: ns ∧ Proper x ∧ ¬ Escapes [] ns ∧ ∀ n ∈ ns, ¬ Stay n

/-- A path that goes straight down from the root. -/
def Straight (h : Home) (p : Dir) : Prop :=
  ∃ x ns, p = h.root ++ x :: ns ∧ ∀ n ∈ x :: ns, Proper n

theorem Straight.below (hp : Straight h p) : Below h p := by
  obtain ⟨x, ns, rfl, hall⟩ := hp
  obtain ⟨hx, hns⟩ := List.forall_mem_cons.mp hall
  exact ⟨x, ns, rfl, hx, fun hesc => (hns _ hesc.mem).2 rfl, fun n hn => (hns n hn).1⟩

theorem Straight.concat (hp : Straight h p) {n : Name} (hn : Proper n) : Straight h (p ++ [n]) := by
  obtain ⟨x, ns, rfl, hall⟩ := hp
  refine ⟨x, ns ++ [n], by simp, fun k hk => ?_⟩
  rcases List.mem_append.mp (show k ∈ (x :: ns) ++ [n] from hk) with hk | hk
  · exact hall k hk
  · exact List.mem_singleton.mp hk ▸ hn

theorem straight_of (h : Home) {x : Name} (hx : Proper x) : Straight h (h.root ++ [x]) :=
  ⟨x, [], rfl, by simpa using hx⟩

theorem Below.dropLast (hp : Below h p) : p.dropLast = h.root ∨ Below h p.dropLast := by
  obtain ⟨x, ns, rfl, hx, hesc, hstay⟩ := hp
  rw [List.dropLast_append_of_ne_nil (List.cons_ne_nil _ _)]
  cases ns with
  | nil => exact .inl (List.append_nil _)
  | cons n ns =>
      refine .inr ⟨x, (n :: ns).dropLast, rfl, hx, fun h => hesc ?_, fun k hk =>
        hstay k (List.dropLast_subset _ hk)⟩
      rw [← List.dropLast_append_getLast (List.cons_ne_nil n ns)]
      exact h.append _

/-- The beginnings of a path below the root are the root's, or below it too. -/
theorem Below.of_prefix (hp : Below h p) {d : Dir} (hd : d <+: p) : d <+: h.root ∨ Below h d := by
  obtain ⟨x, ns, rfl, hx, hesc, hstay⟩ := hp
  rcases List.prefix_or_prefix_of_prefix hd (List.prefix_append _ _) with hd | ⟨e, rfl⟩
  · exact .inl hd
  · have he := (List.prefix_append_right_inj _).mp hd
    cases e with
    | nil => exact .inl (by simp)
    | cons y e =>
        obtain ⟨rfl, tail, rfl⟩ := List.cons_prefix_cons.mp he
        exact .inr ⟨y, e, rfl, hx, fun h => hesc (h.append tail),
          fun n hn => hstay n (List.mem_append_left _ hn)⟩

theorem proper_of_root (hroot : t.isDir h.root = true) : ∀ n ∈ h.root, Proper n := by
  obtain ⟨e, he, -⟩ := Tree.isDir_iff.mp hroot
  exact fun n hn => ⟨(Tree.validName_of_get he n hn).not_stay,
    (Tree.validName_of_get he n hn).2.2.1⟩

/-- What a path below the root names is below it. -/
theorem Below.place (hp : Below h p) (hroot : t.isDir h.root = true) (hd : t.Direct p)
    (hq : t.place p = .ok q) : h.root <+: q ∧ q ≠ h.root := by
  obtain ⟨x, ns, rfl, hx, hesc, hstay⟩ := hp
  have hproper := proper_of_root hroot
  have hlead := Tree.place_leads hd (fun n hn => by
    rcases List.mem_append.mp hn with hn | hn
    · exact (hproper n hn).1
    · rcases List.mem_cons.mp hn with rfl | hn
      · exact hx.1
      · exact hstay n hn) hq
  have hstart : Leads [] (h.root ++ [x]) (h.root ++ [x]) := by
    have hall : ∀ n ∈ h.root ++ [x], Proper n := fun n hn => by
      rcases List.mem_append.mp hn with hn | hn
      · exact hproper n hn
      · exact List.mem_singleton.mp hn ▸ hx
    have hself := Leads.self [] hall
    rwa [List.nil_append] at hself
  rw [List.append_cons, leads_append hstart] at hlead
  have hpre : h.root ++ [x] <+: q := hlead.within (r := []) (by simp) hesc
  refine ⟨(List.prefix_append _ _).trans hpre, fun heq => ?_⟩
  have := hpre.length_le
  rw [heq] at this
  simp at this

/-- A straight path names itself. -/
theorem Straight.place (hp : Straight h p) (hroot : t.isDir h.root = true) (hd : t.Direct p)
    (hq : t.place p = .ok q) : q = p := by
  have hproper : ∀ n ∈ p, Proper n := by
    obtain ⟨x, ns, rfl, hall⟩ := hp
    exact fun n hn => (List.mem_append.mp hn).elim (proper_of_root hroot n) (hall n)
  have hself := Leads.self [] hproper
  rw [List.nil_append] at hself
  exact (Tree.place_leads hd (fun n hn => (hproper n hn).1) hq).unique hself

/-- The beginnings of the root are there. -/
theorem get_of_prefix_root (hroot : t.isDir h.root = true) {d : Dir} (hd : d <+: h.root)
    (hq : t.place d = .ok q) : t.get q ≠ none := by
  have hdir : t.isDir d = true := by
    obtain ⟨rest, hrest⟩ := hd
    cases rest with
    | nil => rwa [← hrest, List.append_nil] at hroot
    | cons n rest =>
        obtain ⟨e, he, -⟩ := Tree.isDir_iff.mp hroot
        rw [← hrest] at he
        exact Tree.isDir_of_below (by rw [he]; simp) (List.cons_ne_nil _ _)
  have hdq : q = d := by
    unfold Tree.place at hq
    split at hq
    · rename_i hlast
      rw [List.getLast?_eq_none_iff.mp hlast]
      cases hq
      rfl
    · rename_i name hlast
      have hsplit := List.dropLast_append_getLast? name hlast
      have hpar : t.isDir d.dropLast = true := Tree.isDir_dropLast hdir
      rw [Tree.resolve_of_real (Tree.real_of_isDir hpar)] at hq
      simp only [hpar, if_true] at hq
      obtain ⟨e, he, -⟩ := Tree.isDir_iff.mp hdir
      have hname := Tree.validName_of_get he name (List.mem_of_getLast? hlast)
      rw [if_neg (show ¬ name = parentName from hname.2.2.1)] at hq
      rw [← hsplit]
      cases hq
      rfl
  obtain ⟨e, he, -⟩ := Tree.isDir_iff.mp hdir
  rw [hdq, he]
  simp

theorem proper_of_valid {n : Name} (hn : ValidName n) : Proper n := ⟨hn.not_stay, hn.2.2.1⟩

theorem components_of_name {n : List Char} (hs : '/' ∉ n) (hn : ¬ Stay n) :
    components n = [n] := by
  have hsplit : n.splitOn '/' = [n] := by
    have hbare : ∀ l ∈ [n], '/' ∉ l := by simpa using hs
    have hcut := List.splitOn_intercalate '/' hbare (by simp)
    rwa [List.intercalate_singleton] at hcut
  rw [components, hsplit]
  simp [hn]

theorem join_name {n : List Char} (hs : '/' ∉ n) (hn : ¬ Stay n) (p : Dir) :
    join p n = p ++ [n] := by
  have hhead : n.head? ≠ some '/' := fun h => hs (List.mem_of_head? h)
  rw [join, if_neg hhead, components_of_name hs hn]

/-- A name with another character than a dot. -/
theorem proper_of_mem {n : Name} {c : Char} (hc : c ∈ n) (hdot : c ≠ '.') : Proper n := by
  refine ⟨fun hs => ?_, fun hp => ?_⟩
  · rcases hs with rfl | rfl
    · cases hc
    · exact hdot (List.mem_singleton.mp hc)
  · rw [hp, parentName] at hc
    simp [hdot] at hc

theorem separator_not_mem_decimal (n : Nat) : '/' ∉ Text.decimal n := by
  intro h
  have hdigit : Text.isAsciiDigit '/' = true := Text.isAsciiDigit_of_mem_decimal h
  exact absurd hdigit (by decide)

theorem proper_stagedName (h : Home) (n : Nat) : Proper (stagedName h n) :=
  proper_of_mem (c := '-') (by simp [stagedName]) (by decide)

theorem proper_trashName (h : Home) (id : List Char) : Proper (trashName h id) :=
  proper_of_mem (c := '-') (List.mem_append_right _ List.mem_cons_self) (by decide)

end Paths

/-! ### What the programs touch -/

section Lawful

variable {h : Home} {id : List Char} {N : Nat → Prop} {α β : Type}

/-- The answers a program may count on: the id of the source, names, tame versions, and when it
is. -/
def Given (id : List Char) (N : Nat → Prop) : (o : Op) → Reply o → Prop
  | .source _, r => ∀ m, r = some m → m.id = id
  | .manifest _, r => ∀ m, r = some m → TameVersion m.version
  | .readDir _, r => ∀ names, r = some names → ∀ n ∈ names, ValidName n.1
  | .millis, n => N n
  | _, _ => True

/-- What the paths of a call must be. -/
def Lawful (h : Home) (id : List Char) (N : Nat → Prop) : (o : Op) → Reply o → Prop
  | .createDirAll p, _ => p = h.root ∨ Below h p
  | .rename p q, _ => Below h p ∧ Below h q
  | .removeDirAll p, _ => Straight h p ∧ Own h id N p
  | .copy _ q, _ => Below h q
  | _, _ => True

/-- The program keeps to the plugin's place, and its result is in `Q`. -/
abbrev Keeps (h : Home) (id : List Char) (N : Nat → Prop) (Q : α → Prop) (c : Code α) : Prop :=
  Meets (Given id N) (Lawful h id N) Q c

theorem keeps_bind {Q : β → Prop} {c : Code α} {f : α → Code β} :
    Keeps h id N (fun a => Keeps h id N Q (f a)) c → Keeps h id N Q (c >>= f) :=
  meets_bind.mpr

/-- A call, and what comes after it. -/
theorem keeps_perform {o : Op} {f : Reply o → Code β} {Q : β → Prop}
    (hf : ∀ r, Given id N o r → Lawful h id N o r ∧ Keeps h id N Q (f r)) :
    Keeps h id N Q (perform o >>= f) := hf

variable (hid : OwnId id)
include hid

theorem target_eq : targetDir h id = h.root ++ [id] :=
  join_name hid.1.2.2.2.1 hid.1.not_stay _

theorem backups_eq : backupsOf h id = h.root ++ [backupsDir, id] := by
  rw [backupsOf, join_name hid.1.2.2.2.1 hid.1.not_stay, List.append_assoc]
  rfl

theorem trash_eq :
    join (stagingRoot h) (trashName h id) = h.root ++ [stagingDir, trashName h id] := by
  have hs : '/' ∉ trashName h id := by
    have hprefix : '/' ∉ "rollback-trash-".toList := by decide
    intro h
    rcases List.mem_append.mp h with h | h
    · exact (List.mem_append.mp h).elim hprefix hid.1.2.2.2.1
    · rcases List.mem_cons.mp h with h | h
      · exact absurd h (by decide)
      · exact separator_not_mem_decimal _ h
  rw [join_name hs (proper_trashName h id).1, stagingRoot, List.append_assoc]
  rfl

theorem straight_target : Straight h (targetDir h id) := by
  rw [target_eq hid]
  exact straight_of h (proper_of_valid hid.1)

theorem straight_backups : Straight h (backupsOf h id) := by
  have hb : Proper backupsDir := by decide
  have := (straight_of h hb).concat (proper_of_valid hid.1)
  rwa [List.append_assoc, List.singleton_append, ← backups_eq hid] at this

/-- The place of a backup of a tame version. -/
theorem below_backupDir {ts : Nat} {version : List Char} (hv : TameVersion version) :
    Below h (backupDir h id ts version) := by
  have hjoin : backupDir h id ts version =
      h.root ++ backupsDir :: id :: components (Text.decimal ts ++ '-' :: version) := by
    have hhead : (Text.decimal ts ++ '-' :: version).head? ≠ some '/' := fun h => by
      rw [List.head?_append_of_ne_nil _ (Text.decimal_ne_nil ts)] at h
      exact separator_not_mem_decimal ts (List.mem_of_head? h)
    rw [backupDir, join, if_neg hhead, backups_eq hid, List.append_assoc]
    rfl
  refine ⟨backupsDir, _, hjoin, by decide, fun hesc => ?_, fun n hn => ?_⟩
  · generalize hc : components (Text.decimal ts ++ '-' :: version) = cs at hesc
    cases hesc with
    | here => exact (proper_of_valid hid.1).2 rfl
    | stay hn => exact hid.1.not_stay hn
    | parent => exact (proper_of_valid hid.1).2 rfl
    | child _ _ hesc => exact hv ts (hc ▸ hesc.shallower (a := [id]) (r := []) rfl)
  · rcases List.mem_cons.mp hn with rfl | hn
    · exact hid.1.not_stay
    · simpa using (List.mem_filter.mp hn).2

omit hid in
theorem straight_staged (n : Nat) : Straight h (stagingRoot h ++ [stagedName h n]) :=
  (straight_of h (show Proper stagingDir by decide)).concat (proper_stagedName h n)

/-- What has been staged is the plugin's own to delete. -/
def Staged (h : Home) (N : Nat → Prop) (d : Dir) : Prop :=
  ∃ n, N n ∧ d = stagingRoot h ++ [stagedName h n]

omit hid in
theorem Staged.straight {d : Dir} (hd : Staged h N d) : Straight h d := by
  obtain ⟨n, -, rfl⟩ := hd
  exact straight_staged n

omit hid in
theorem Staged.own {d : Dir} (hd : Staged h N d) : Own h id N d := by
  obtain ⟨n, hn, rfl⟩ := hd
  refine .inr (.inr ⟨_, ?_, .inr ⟨n, hn, rfl⟩⟩)
  rw [stagingRoot, List.append_assoc]
  rfl

theorem own_target : Own h id N (targetDir h id) :=
  .inl (by rw [target_eq hid])

theorem own_backups (ns : List Name) : Own h id N (backupsOf h id ++ ns) :=
  .inr (.inl (by rw [backups_eq hid]; exact List.prefix_append _ _))

theorem own_trash : Own h id N (join (stagingRoot h) (trashName h id)) :=
  .inr (.inr ⟨_, trash_eq hid, .inl rfl⟩)

theorem straight_trash : Straight h (join (stagingRoot h) (trashName h id)) := by
  rw [trash_eq hid]
  have := (straight_of h (show Proper stagingDir by decide)).concat (proper_trashName h id)
  rwa [List.append_assoc] at this

/-! ### `install.rs` keeps to the plugin's place -/

omit hid in
theorem keeps_validateSource (src : Dir) :
    Keeps h id N (fun r => ∀ m, r = .ok m → m.id = id) (validateSource h src) := by
  refine keeps_perform fun r hr => ⟨trivial, ?_⟩
  cases r with
  | none => exact fun m hm => nomatch hm
  | some m =>
      dsimp only
      split
      · exact fun m hm => nomatch hm
      · refine keeps_perform fun r _ => ⟨trivial, ?_⟩
        split
        · intro m' hm'
          cases hm'
          exact hr m rfl
        · exact fun m hm => nomatch hm

omit hid in
theorem keeps_copyEach {sub : Dir → Dir → Code Bool} {src : Dir}
    (hsub : ∀ src dst, Straight h dst → Keeps h id N (fun _ => True) (sub src dst)) :
    ∀ {entries : List (Name × Bool)} {dst : Dir}, Straight h dst →
      (∀ n ∈ entries, ValidName n.1) →
      Keeps h id N (fun _ => True) (copyEach sub src dst entries)
  | [], _, _, _ => trivial
  | (name, isDir) :: rest, dst, hdst, hnames => by
      obtain ⟨hname, hrest⟩ := List.forall_mem_cons.mp hnames
      have hto : Straight h (dst ++ [name]) := hdst.concat (proper_of_valid hname)
      have hnext : ∀ done : Bool, Keeps h id N (fun _ => True)
          (if done = true then copyEach sub src dst rest else pure false) := fun done => by
        split
        · exact keeps_copyEach hsub hdst hrest
        · trivial
      rw [copyEach]
      split
      · exact keeps_bind ((hsub _ _ hto).mono fun done _ => hnext done)
      · exact keeps_perform fun r _ => ⟨hto.below, hnext r⟩

omit hid in
theorem keeps_copyDirRecursive : ∀ (depth : Nat) (src dst : Dir), Straight h dst →
    Keeps h id N (fun _ => True) (copyDirRecursive depth src dst)
  | 0, _, _, _ => trivial
  | depth + 1, src, dst, hdst => by
      refine keeps_perform fun r _ => ⟨.inr hdst.below, ?_⟩
      split
      · refine keeps_perform fun r hr => ⟨trivial, ?_⟩
        cases r with
        | none => trivial
        | some entries =>
            exact keeps_copyEach (keeps_copyDirRecursive depth) hdst (hr entries rfl)
      · trivial

omit hid in
theorem keeps_stage (src : Dir) :
    Keeps h id N (fun r => ∀ d, r = .ok d → Staged h N d) (stage h src) := by
  have hroot := (straight_of h (show Proper stagingDir by decide)).below
  refine keeps_perform fun r _ => ⟨.inr hroot, ?_⟩
  split
  · refine keeps_perform fun n hn => ⟨trivial, keeps_bind ?_⟩
    refine (keeps_copyDirRecursive pathMax src _ (straight_staged n)).mono fun done _ => ?_
    split
    · intro d hd
      cases hd
      exact ⟨n, hn, rfl⟩
    · exact fun d hd => nomatch hd
  · exact fun d hd => nomatch hd

theorem keeps_settle {staging : Dir} {backup : Option Dir} (hs : Staged h N staging)
    (hb : ∀ b, backup = some b → Below h b) :
    Keeps h id N (fun r => ∀ b, r = .ok (some b) → Below h b)
      (settle (targetDir h id) staging backup) := by
  have htarget := (straight_target (h := h) hid).below
  refine keeps_perform fun r _ => ⟨htarget.dropLast, ?_⟩
  split
  · refine keeps_perform fun r _ => ⟨⟨hs.straight.below, htarget⟩, ?_⟩
    split
    · intro b hr
      cases hr
      exact hb b rfl
    · cases backup with
      | none => exact fun b hr => nomatch hr
      | some b => exact keeps_perform fun r _ => ⟨⟨hb b rfl, htarget⟩, fun b hr => nomatch hr⟩
  · exact fun b hr => nomatch hr

theorem keeps_commitSwap {m : PluginManifest} (hm : m.id = id) {staging : Dir}
    (hs : Staged h N staging) : Keeps h id N (fun r => ∀ b, r = .ok (some b) → Below h b)
      (commitSwap h m staging) := by
  subst hm
  refine keeps_perform fun r _ => ⟨trivial, ?_⟩
  split
  · refine keeps_perform fun r hr => ⟨trivial, ?_⟩
    cases r with
    | none => exact fun b hb => nomatch hb
    | some old =>
        refine keeps_perform fun ts _ => ⟨trivial, ?_⟩
        have hdst : Below h (backupDir h m.id ts old.version) := below_backupDir hid (hr old rfl)
        refine keeps_perform fun r _ => ⟨hdst.dropLast, ?_⟩
        split
        · refine keeps_perform fun r _ => ⟨⟨(straight_target hid).below, hdst⟩, ?_⟩
          split
          · refine keeps_settle hid hs fun b hb => ?_
            cases hb
            exact hdst
          · exact fun b hb => nomatch hb
        · exact fun b hb => nomatch hb
  · exact keeps_settle hid hs fun b hb => nomatch hb

theorem keeps_pruneEach {keep : Option Dir} : ∀ {entries : List (Name × Bool)},
    (∀ n ∈ entries, ValidName n.1) →
    Keeps h id N (fun _ => True) (pruneEach keep (backupsOf h id) entries)
  | [], _ => trivial
  | (name, isDir) :: rest, hnames => by
      obtain ⟨hname, hrest⟩ := List.forall_mem_cons.mp hnames
      unfold pruneEach
      split
      · exact keeps_pruneEach hrest
      · exact keeps_perform fun r _ =>
          ⟨⟨(straight_backups hid).concat (proper_of_valid hname), own_backups hid _⟩,
            keeps_pruneEach hrest⟩

theorem keeps_pruneBackups {keep : Option Dir} :
    Keeps h id N (fun _ => True) (pruneBackups h id keep) := by
  refine keeps_perform fun r hr => ⟨trivial, ?_⟩
  cases r with
  | none => trivial
  | some entries => exact keeps_pruneEach hid (hr entries rfl)

omit hid in
theorem lastOf_mem : ∀ {ns : List Name} {n : Name}, lastOf ns = some n → n ∈ ns
  | [], _, h => nomatch h
  | k :: ns, n, h => by
      unfold lastOf at h
      split at h
      · cases h
        exact List.mem_cons_self
      · rename_i m hm
        split at h
        · cases h
          exact List.mem_cons_self
        · cases h
          exact List.mem_cons_of_mem _ (lastOf_mem hm)

theorem keeps_latestBackup :
    Keeps h id N (fun r => ∀ b, r = some b → Below h b) (latestBackup h id) := by
  refine keeps_perform fun r hr => ⟨trivial, ?_⟩
  cases r with
  | none => exact fun b hb => nomatch hb
  | some entries =>
      intro b hb
      obtain ⟨n, hn, rfl⟩ := Option.map_eq_some_iff.mp hb
      obtain ⟨e, he, rfl⟩ := List.mem_map.mp (lastOf_mem hn)
      have hvalid := hr entries rfl e (List.mem_filter.mp he).1
      exact ((straight_backups hid).concat (proper_of_valid hvalid)).below

theorem keeps_swapBack {backup : Dir} (hb : Below h backup) :
    Keeps h id N (fun _ => True)
      (swapBack h id backup (targetDir h id) (join (stagingRoot h) (trashName h id))) := by
  have htarget := straight_target (h := h) hid
  have htrash := straight_trash (h := h) hid
  refine keeps_perform fun r _ => ⟨⟨hb, htarget.below⟩, ?_⟩
  split
  · refine keeps_perform fun r _ => ⟨trivial, ?_⟩
    cases r with
    | none => trivial
    | some m =>
        refine keeps_perform fun r _ => ⟨⟨htrash, own_trash hid⟩, ?_⟩
        refine keeps_perform fun r _ => ⟨⟨straight_backups hid, ?_⟩, trivial⟩
        have := own_backups (N := N) (h := h) hid []
        rwa [List.append_nil] at this
  · refine keeps_bind ?_
    have hback : Keeps h id N (fun _ => Keeps h id N (fun _ => True)
        (pure (.error .io) : Code (Except Failure PluginManifest))) (do
          if ← perform (.present (join (stagingRoot h) (trashName h id))) then
            let _ ← perform (.rename (join (stagingRoot h) (trashName h id)) (targetDir h id))) := by
      refine keeps_perform fun r _ => ⟨trivial, ?_⟩
      split
      · exact keeps_perform fun r _ => ⟨⟨htrash.below, htarget.below⟩, trivial⟩
      · trivial
    refine keeps_perform fun r _ => ⟨trivial, ?_⟩
    split
    · exact keeps_perform fun r _ => ⟨⟨htarget, own_target hid⟩, hback⟩
    · exact hback

theorem keeps_rollbackFiles : Keeps h id N (fun _ => True) (rollbackFiles h id) := by
  refine keeps_bind ((keeps_latestBackup hid).mono fun backup hb => ?_)
  cases backup with
  | none => trivial
  | some backup =>
      have hstaging := (straight_of h (show Proper stagingDir by decide)).below
      refine keeps_perform fun r _ => ⟨.inr hstaging, ?_⟩
      split
      · refine keeps_perform fun r _ => ⟨trivial, ?_⟩
        split
        · refine keeps_perform fun r _ =>
            ⟨⟨(straight_target hid).below, (straight_trash hid).below⟩, ?_⟩
          split
          · exact keeps_swapBack hid (hb _ rfl)
          · trivial
        · exact keeps_swapBack hid (hb _ rfl)
      · trivial

theorem keeps_uninstallFiles : Keeps h id N (fun _ => True) (uninstallFiles h id) := by
  have hbackups : Keeps h id N (fun _ => True) (do
      if ← perform (.present (backupsOf h id)) then
        if ← perform (.removeDirAll (backupsOf h id)) then pure (.ok ()) else pure (.error .io)
      else pure (.ok ()) : Code (Except Failure Unit)) := by
    refine keeps_perform fun r _ => ⟨trivial, ?_⟩
    split
    · refine keeps_perform fun r _ => ⟨⟨straight_backups hid, ?_⟩, ?_⟩
      · have := own_backups (N := N) (h := h) hid []
        rwa [List.append_nil] at this
      · split <;> trivial
    · trivial
  have hgone : ∀ gone : Bool, Keeps h id N (fun _ => True) (do
      if gone then
        if ← perform (.present (backupsOf h id)) then
          if ← perform (.removeDirAll (backupsOf h id)) then pure (.ok ()) else pure (.error .io)
        else pure (.ok ())
      else pure (.error .io) : Code (Except Failure Unit)) := fun gone => by
    split
    · exact hbackups
    · trivial
  refine keeps_perform fun r _ => ⟨trivial, ?_⟩
  split
  · exact keeps_perform fun r _ => ⟨⟨straight_target hid, own_target hid⟩, hgone r⟩
  · exact hgone true

/-! ### The commands keep to the plugin's place -/

omit hid in
theorem keeps_answer (i : List Char) : Keeps h id N (fun _ => True) (answer i) :=
  keeps_perform fun r _ => ⟨trivial, by split <;> trivial⟩

theorem keeps_register {m : PluginManifest} (hm : m.id = id) (kind : Handle)
    (backup : Option Dir) : Keeps h id N (fun _ => True) (register h m kind backup) := by
  subst hm
  refine keeps_perform fun r _ => ⟨trivial, keeps_perform fun r _ => ⟨trivial, ?_⟩⟩
  split
  · refine keeps_perform fun r _ => ⟨trivial, keeps_bind ?_⟩
    exact (keeps_pruneBackups hid).mono fun _ _ => keeps_answer _
  · trivial

theorem keeps_restore {m : PluginManifest} (hm : m.id = id) {backup : Option Dir}
    (hb : ∀ b, backup = some b → Below h b) :
    Keeps h id N (fun _ => True) (restore h m backup) := by
  subst hm
  have htarget := straight_target (h := h) hid
  refine keeps_perform fun r _ => ⟨⟨htarget, own_target hid⟩, ?_⟩
  cases backup with
  | none => trivial
  | some b =>
      refine keeps_perform fun r _ => ⟨⟨hb b rfl, htarget.below⟩, ?_⟩
      split
      · refine keeps_perform fun r _ => ⟨trivial, ?_⟩
        cases r with
        | none => trivial
        | some kind =>
            refine keeps_perform fun r _ => ⟨trivial, keeps_bind ?_⟩
            exact (keeps_pruneBackups hid).mono fun _ _ => trivial
      · trivial

theorem keeps_replace {m : PluginManifest} (hm : m.id = id) (src : Dir) :
    Keeps h id N (fun _ => True) (replace h m src) := by
  refine keeps_perform fun r _ => ⟨trivial, keeps_bind ?_⟩
  refine (keeps_stage src).mono fun staged hs => ?_
  cases staged with
  | error e => trivial
  | ok staged =>
      have hs : Staged h N staged := hs staged rfl
      refine keeps_bind ((keeps_commitSwap hid hm hs).mono fun backup hb => ?_)
      cases backup with
      | error e => exact keeps_perform fun r _ => ⟨⟨hs.straight, hs.own⟩, trivial⟩
      | ok backup =>
          refine keeps_perform fun r _ => ⟨trivial, ?_⟩
          cases r with
          | some kind => exact keeps_register hid hm kind backup
          | none => exact keeps_restore hid hm fun b h => hb b (by rw [h])

theorem keeps_install (src : Dir) : Keeps h id N (fun _ => True) (install h src) := by
  refine keeps_bind ((keeps_validateSource src).mono fun m hm => ?_)
  cases m with
  | error e => trivial
  | ok m =>
      have hm : m.id = id := hm m rfl
      refine keeps_perform fun r _ => ⟨trivial, ?_⟩
      split
      · refine keeps_perform fun r _ => ⟨trivial, ?_⟩
        cases r with
        | none => trivial
        | some old =>
            dsimp only
            split
            · exact keeps_replace hid hm src
            · trivial
      · exact keeps_replace hid hm src

theorem keeps_rollback : Keeps h id N (fun _ => True) (rollback h id) := by
  refine keeps_perform fun r _ => ⟨trivial, keeps_bind ?_⟩
  refine (keeps_rollbackFiles hid).mono fun m _ => ?_
  cases m with
  | error e => trivial
  | ok m =>
      refine keeps_perform fun r _ => ⟨trivial, ?_⟩
      cases r with
      | none => trivial
      | some kind =>
          refine keeps_perform fun r _ => ⟨trivial, keeps_perform fun r _ => ⟨trivial, ?_⟩⟩
          split
          · exact keeps_perform fun r _ => ⟨trivial, keeps_answer _⟩
          · trivial

theorem keeps_uninstall : Keeps h id N (fun _ => True) (uninstall h id) := by
  refine keeps_perform fun r _ => ⟨trivial, keeps_bind ?_⟩
  refine (keeps_uninstallFiles hid).mono fun gone _ => ?_
  cases gone with
  | error e => trivial
  | ok _ => exact keeps_perform fun r _ => ⟨trivial, by split <;> trivial⟩

omit hid in
theorem keeps_setEnabled (i : List Char) (enabled : Bool) :
    Keeps h id N (fun _ => True) (setEnabled i enabled) := by
  refine keeps_perform fun r _ => ⟨trivial, ?_⟩
  cases r with
  | none => trivial
  | some row =>
      dsimp only
      split
      · refine keeps_perform fun r _ => ⟨trivial, ?_⟩
        cases r with
        | none => exact keeps_perform fun r _ => ⟨trivial, by split <;> trivial⟩
        | some kind =>
            refine keeps_perform fun r _ => ⟨trivial, ?_⟩
            split
            · exact keeps_perform fun r _ => ⟨trivial, keeps_answer _⟩
            · trivial
      · refine keeps_perform fun r _ => ⟨trivial, keeps_perform fun r _ => ⟨trivial, ?_⟩⟩
        split
        · exact keeps_answer _
        · trivial

omit hid in
theorem keeps_scanEach : ∀ {dirs : List Dir} {ids : List (List Char)}
    {new : List (List Char × Handle)},
    Keeps h id N (fun _ => True) (scanEach dirs ids new)
  | [], _, _ => trivial
  | dir :: rest, ids, new => by
      refine keeps_perform fun r _ => ⟨trivial, ?_⟩
      cases r with
      | none => exact keeps_scanEach
      | some m =>
          refine keeps_perform fun r _ => ⟨trivial, keeps_perform fun r _ => ⟨trivial, ?_⟩⟩
          split
          · split
            · refine keeps_perform fun r _ => ⟨trivial, ?_⟩
              cases r <;> exact keeps_scanEach
            · exact keeps_scanEach
          · trivial

omit hid in
theorem keeps_scan : Keeps h id N (fun _ => True) scan := by
  refine keeps_perform fun r _ => ⟨trivial, keeps_bind ?_⟩
  refine keeps_scanEach.mono fun r _ => ?_
  cases r with
  | none => trivial
  | some r =>
      exact keeps_perform fun r _ => ⟨trivial,
        keeps_perform fun r _ => ⟨trivial, by split <;> trivial⟩⟩

/-- **Every command keeps to the place of the plugin it is about.** -/
theorem keeps_program {c : Command} {es : List Event} (hc : About id c es) :
    Keeps h id N (fun _ => True) (c.program h) := by
  cases c with
  | scan => exact keeps_scan
  | install src => exact keeps_install hid src
  | rollback i => obtain rfl : id = i := hc.2; exact keeps_rollback hid
  | setEnabled i enabled => exact keeps_setEnabled i enabled
  | uninstall i => obtain rfl : id = i := hc.2; exact keeps_uninstall hid

omit hid in
/-- What a command may count on, in a session that is sound. -/
theorem given_of {c : Command} {es : List Event} {e : Event} (he : e ∈ es) (hc : About id c es)
    (hh : Honest e) (hs : Sound h e) : Given id (Clocked es) e.op e.reply := by
  have hmem : (⟨e.op, e.reply⟩ : (o : Op) × Reply o) ∈ calls es :=
    List.mem_map.mpr ⟨e, he, rfl⟩
  obtain ⟨t, o, r⟩ := e
  cases o with
  | source src =>
      intro m hm
      subst hm
      exact hc.1 src m hmem
  | manifest dir => exact hs.2
  | readDir p =>
      intro names hnames n hn
      obtain ⟨q, -, hget⟩ := hh names hnames
      obtain ⟨e, he⟩ := Option.ne_none_iff_exists'.mp (hget n hn)
      exact Tree.validName_of_get he n.1 (by simp)
  | millis => exact hmem
  | _ => trivial

omit hid in
/-- A lawful call stays in place. -/
theorem Lawful.inPlace {es : List Event} {e : Event} (hs : Sound h e)
    (hl : Lawful h id (Clocked es) e.op e.reply) : InPlace h id es e := by
  obtain ⟨t, o, r⟩ := e
  obtain ⟨hroot, hs⟩ := hs
  cases o with
  | createDirAll p =>
      refine ⟨fun q hq => ?_, fun q hq => hq.elim⟩
      obtain ⟨d, hd, hplace, hnew⟩ := hq
      have hd' : d <+: h.root ∨ Below h d := by
        rcases hl with rfl | hbelow
        · exact .inl hd
        · exact hbelow.of_prefix hd
      rcases hd' with hd' | hd'
      · exact absurd hnew (get_of_prefix_root hroot hd' hplace)
      · exact hd'.place hroot (hs d hd) hplace
  | rename p p' =>
      refine ⟨fun q hq => ?_, fun q hq => hq.elim⟩
      rcases hq with hq | hq
      · exact hl.1.place hroot hs.1 hq
      · exact hl.2.place hroot hs.2 hq
  | removeDirAll p =>
      exact ⟨fun q hq => hl.1.below.place hroot hs hq,
        fun q hq => (hl.1.place hroot hs hq).symm ▸ hl.2⟩
  | copy p p' => exact ⟨fun q hq => hl.place hroot hs hq, fun q hq => hq.elim⟩
  | _ => exact ⟨fun q hq => hq.elim, fun q hq => hq.elim⟩

end Lawful

/-- **The files of plugins stay in their place**, in every session of sound steps whose ids are
names of directories of their own. -/
theorem files_stay_in_place {h : Home} {session : List (Command × List Event)}
    (hrun : ∀ x ∈ session, Runs h x.1 x.2) (hhonest : ∀ x ∈ session, ∀ e ∈ x.2, Honest e)
    (hsound : ∀ x ∈ session, ∀ e ∈ x.2, Sound h e) :
    ∀ x ∈ session, ∀ id, About id x.1 x.2 → OwnId id → ∀ e ∈ x.2, InPlace h id x.2 e := by
  intro x hx id habout hid
  obtain ⟨a, htrace⟩ := hrun x hx
  have hgiven : ∀ c ∈ calls x.2, Given id (Clocked x.2) c.1 c.2 := by
    intro c hc
    obtain ⟨e, he, rfl⟩ := List.mem_map.mp hc
    exact given_of he habout (hhonest x hx e he) (hsound x hx e he)
  have hlawful := ((keeps_program hid habout).trace htrace hgiven).1
  intro e he
  exact (hlawful _ (List.mem_map.mpr ⟨e, he, rfl⟩)).inPlace (hsound x hx e he)

/-! ### An application with one plugin -/

/-- The directory of the application, its settings, and a plugin. -/
def appTree : Files where
  entries :=
    [([], ⟨.dir 0, ()⟩), ([['d']], ⟨.dir 1, ()⟩), ([['d'], ['s']], ⟨.file, ()⟩),
      ([['d'], ['p']], ⟨.dir 2, ()⟩), ([['d'], ['p'], ['a']], ⟨.dir 3, ()⟩)]
  unique := by decide
  rooted := by decide
  closed := by decide
  named := by decide
  ids := by decide

def appHome : Home := ⟨[['d'], ['p']], 7, "linux-x64".toList⟩

/-- `uninstall`, with everything going well. -/
def uninstalling (id : List Char) : List Event :=
  [⟨appTree, .unloadHandle id, ()⟩, ⟨appTree, .present (targetDir appHome id), true⟩,
    ⟨appTree, .removeDirAll (targetDir appHome id), true⟩,
    ⟨appTree, .present (backupsOf appHome id), false⟩, ⟨appTree, .removeRow id, true⟩]

theorem runs_uninstalling (id : List Char) : Runs appHome (.uninstall id) (uninstalling id) :=
  ⟨.ok (), (), rfl, true, rfl, true, rfl, false, rfl, true, rfl, rfl⟩

theorem direct_appTree (c : Dir) : appTree.Direct c := Tree.LinkFree.direct (by decide)

/-- Uninstalling the plugin deletes its own directory. -/
theorem uninstall_in_place : InPlace appHome ['a'] (uninstalling ['a'])
    ⟨appTree, .removeDirAll (targetDir appHome ['a']), true⟩ := by
  have hroot : appTree.isDir appHome.root = true := by decide
  have hhere : appTree.resolve (targetDir appHome ['a']) = .ok [['d'], ['p'], ['a']] := rfl
  have hgone : appTree.resolve (backupsOf appHome ['a']) = .error .enoent := rfl
  refine @files_stay_in_place appHome [(.uninstall ['a'], uninstalling ['a'])] (fun x hx => ?_)
    (fun x hx => ?_) (fun x hx => ?_) (.uninstall ['a'], uninstalling ['a']) (by simp) ['a']
    ⟨fun src m hm => by simp [calls, uninstalling] at hm, rfl⟩ (by decide) _
    (by simp [uninstalling])
  · obtain rfl := List.mem_singleton.mp hx
    exact runs_uninstalling _
  · obtain rfl := List.mem_singleton.mp hx
    simp only [uninstalling, List.forall_mem_cons, List.not_mem_nil, false_imp_iff, implies_true,
      and_true, Honest, hhere, hgone]
    simp
  · obtain rfl := List.mem_singleton.mp hx
    simp only [uninstalling, List.forall_mem_cons, List.not_mem_nil, false_imp_iff, implies_true,
      and_true, Sound, hroot, direct_appTree]

/-- The id `..` passes the check of ids, and uninstalling it deletes the directory of the
application. -/
theorem uninstall_dots_escapes : ¬ ∀ (h : Home) (c : Command) (es : List Event), Runs h c es →
    (∀ e ∈ es, Honest e ∧ e.tree.isDir h.root = true) → ∀ id, About id c es →
    isValidId id = true → ∀ e ∈ es, InPlace h id es e := by
  intro hall
  have hroot : appTree.isDir appHome.root = true := by decide
  have hhere : appTree.resolve (targetDir appHome ['.', '.']) = .ok [['d']] := rfl
  have hgone : appTree.resolve (backupsOf appHome ['.', '.']) = .error .enoent := by
    rfl
  have hplace := (hall appHome (.uninstall ['.', '.']) (uninstalling ['.', '.'])
    (runs_uninstalling _) ?_ ['.', '.'] ⟨fun src m hm => by simp [calls, uninstalling] at hm, rfl⟩
    (by decide) ⟨appTree, .removeDirAll (targetDir appHome ['.', '.']), true⟩
    (by simp [uninstalling])).below [['d']] (show appTree.place _ = _ by rfl)
  · exact absurd hplace.1 (by decide)
  · simp only [uninstalling, List.forall_mem_cons, List.not_mem_nil, false_imp_iff, implies_true,
      and_true, Honest, hroot, hhere, hgone]
    simp

end RevBox.PluginInstall
