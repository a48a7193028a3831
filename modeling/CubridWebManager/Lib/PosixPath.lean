import CubridWebManager.Lib.JsText
import CubridWebManager.Lib.Pieces
import CubridWebManager.Lib.SepList

/-!
# Paths of POSIX

An absolute path without dot segments is the list of the names from the root on.  `resolve` follows a text from such a
path, as `path.resolve` does.  A path lies below another one if its names begin with those of the other; a text that
begins with the other's text may also name a sibling of it (`text_prefix_iff`).
-/

/-- A text that can name an entry of a directory. -/
structure IsName (t : Text) : Prop where
  ne_nil : t ≠ []
  ne_dot : t ≠ ['.']
  ne_dots : t ≠ ['.', '.']
  no_slash : '/' ∉ t

structure PosixPath where
  names : List Text
  valid : ∀ n ∈ names, IsName n

namespace PosixPath

@[ext] theorem ext {p q : PosixPath} (h : p.names = q.names) : p = q := by
  cases p
  cases q
  cases h
  rfl

instance : DecidableEq PosixPath := fun p q => decidable_of_iff (p.names = q.names) ⟨ext, fun h => h ▸ rfl⟩

def text (p : PosixPath) : Text := if p.names = [] then ['/'] else p.names.flatMap ('/' :: ·)

/-- Where a segment leads from the path with these names. -/
def follow (names : List Text) (segment : Text) : List Text :=
  if segment = [] ∨ segment = ['.'] then names
  else if segment = ['.', '.'] then names.dropLast
  else names ++ [segment]

theorem isName_of_mem_follow {names : List Text} {segment n : Text} (hnames : ∀ n ∈ names, IsName n)
    (hsegment : '/' ∉ segment) (hn : n ∈ follow names segment) : IsName n := by
  unfold follow at hn
  split at hn
  · exact hnames n hn
  · rename_i hne
    split at hn
    · exact hnames n (List.dropLast_subset _ hn)
    · rename_i hdots
      rcases List.mem_append.1 hn with hn | hn
      · exact hnames n hn
      · rw [List.mem_singleton.1 hn]
        exact ⟨fun h => hne (.inl h), fun h => hne (.inr h), hdots, hsegment⟩

theorem isName_of_mem_foldl {segments names : List Text} (hsegments : ∀ s ∈ segments, '/' ∉ s)
    (hnames : ∀ n ∈ names, IsName n) : ∀ n ∈ segments.foldl follow names, IsName n := by
  induction segments generalizing names with
  | nil => exact hnames
  | cons s segments ih =>
    refine ih (fun s' hs' => hsegments s' (List.mem_cons_of_mem _ hs')) fun n hn => ?_
    exact isName_of_mem_follow hnames (hsegments s List.mem_cons_self) hn

/-- `path.resolve(base, t)` -/
def resolve (base : PosixPath) (t : Text) : PosixPath where
  names := (t.splitOn '/').foldl follow (if t.head? = some '/' then [] else base.names)
  valid := by
    refine isName_of_mem_foldl (fun s hs => SepList.not_mem_of_mem_splitOn hs) ?_
    split
    · exact nofun
    · exact base.valid

/-- `path.extname(t) !== ''`: the last name that is not empty has a dot, but not only as its first character. -/
def hasExtension (t : Text) : Bool :=
  let base := (((t.splitOn '/').filter (· ≠ [])).getLast?).getD []
  base ≠ ['.', '.'] && base.tail.contains '.'

/-! ### Paths and their texts -/

/-- The path is the other one, or lies below it. -/
def Within (root p : PosixPath) : Prop := root.names <+: p.names

/-- Where the last name of `root` stands, the path has a longer name that begins with it. -/
def Beside (root p : PosixPath) : Prop :=
  ∃ parents last suffix rest, root.names = parents ++ [last] ∧ suffix ≠ [] ∧ p.names = parents ++ (last ++ suffix) :: rest

variable {root p : PosixPath}

theorem not_within_of_beside (h : Beside root p) : ¬ Within root p := by
  obtain ⟨parents, last, suffix, rest, hroot, hsuffix, hp⟩ := h
  rintro ⟨tail, htail⟩
  rw [hroot, hp, List.append_assoc, List.append_cancel_left_eq, List.singleton_append, List.cons.injEq] at htail
  exact hsuffix (List.self_eq_append_right.1 htail.1)

theorem head?_flatMap (ns : List Text) : ∀ c ∈ (ns.flatMap ('/' :: ·)).head?, c = '/' := by
  cases ns with
  | nil => exact nofun
  | cons m ns =>
    intro c hc
    exact (Option.some.inj hc).symm

/-- A name is read up to its slash. -/
theorem name_eq_of_prefix {n m b rest : Text} (hn : '/' ∉ n) (hm : '/' ∉ m) (hrest : ∀ c ∈ rest.head?, c = '/')
    (h : n ++ '/' :: b <+: m ++ rest) : n = m ∧ '/' :: b <+: rest := by
  induction n generalizing m with
  | nil =>
    cases m with
    | nil => exact ⟨rfl, h⟩
    | cons c m =>
      obtain ⟨hc, -⟩ := List.cons_prefix_cons.1 h
      exact absurd (hc ▸ List.mem_cons_self) hm
  | cons c n ih =>
    cases m with
    | nil =>
      cases rest with
      | nil => cases List.prefix_nil.1 h
      | cons d rest =>
        obtain ⟨hc, -⟩ := List.cons_prefix_cons.1 h
        have hd := hrest d rfl
        exact absurd (hc.trans hd ▸ List.mem_cons_self) hn
    | cons d m =>
      obtain ⟨rfl, htail⟩ := List.cons_prefix_cons.1 h
      obtain ⟨rfl, hb⟩ := ih (fun hc => hn (List.mem_cons_of_mem _ hc)) (fun hc => hm (List.mem_cons_of_mem _ hc)) htail
      exact ⟨rfl, hb⟩

/-- A name that ends the text is the beginning of a name. -/
theorem name_prefix_of_prefix {n m rest : Text} (hn : '/' ∉ n) (hrest : ∀ c ∈ rest.head?, c = '/')
    (h : n <+: m ++ rest) : n <+: m := by
  cases rest with
  | nil => rwa [List.append_nil] at h
  | cons c rest =>
    obtain rfl := hrest c rfl
    exact Pieces.prefix_of_append_cons hn h

/-- The text of some names begins another one just if all but the last are the first names there, and the last one begins
the next name there. -/
theorem flatMap_prefix_iff {parents ns : List Text} {last : Text} (hparents : ∀ n ∈ parents, '/' ∉ n) (hlast : '/' ∉ last)
    (hns : ∀ n ∈ ns, '/' ∉ n) :
    (parents ++ [last]).flatMap ('/' :: ·) <+: ns.flatMap ('/' :: ·) ↔
      ∃ suffix rest, ns = parents ++ (last ++ suffix) :: rest := by
  induction parents generalizing ns with
  | nil =>
    cases ns with
    | nil => simp
    | cons m ns =>
      simp only [List.nil_append, List.flatMap_cons, List.flatMap_nil, List.append_nil, List.cons_append,
        List.cons_prefix_cons, true_and, List.cons.injEq]
      constructor
      · intro h
        obtain ⟨suffix, rfl⟩ := name_prefix_of_prefix hlast (head?_flatMap ns) h
        exact ⟨suffix, ns, rfl, rfl⟩
      · rintro ⟨suffix, rest, rfl, -⟩
        rw [List.append_assoc]
        exact List.prefix_append _ _
  | cons n parents ih =>
    cases ns with
    | nil => simp
    | cons m ns =>
      have hn := hparents n List.mem_cons_self
      have hm := hns m List.mem_cons_self
      have hih : (parents ++ [last]).flatMap ('/' :: ·) <+: ns.flatMap ('/' :: ·) ↔
          ∃ suffix rest, ns = parents ++ (last ++ suffix) :: rest :=
        ih (fun n' hn' => hparents n' (List.mem_cons_of_mem _ hn')) fun n' hn' => hns n' (List.mem_cons_of_mem _ hn')
      have hcons : ∃ b, (parents ++ [last]).flatMap ('/' :: ·) = '/' :: b := by
        cases parents with
        | nil => exact ⟨_, rfl⟩
        | cons _ _ => exact ⟨_, rfl⟩
      simp only [List.cons_append, List.flatMap_cons, List.cons_prefix_cons, true_and, List.cons.injEq]
      constructor
      · intro h
        obtain ⟨b, hb⟩ := hcons
        rw [hb] at h
        obtain ⟨rfl, htail⟩ := name_eq_of_prefix hn hm (head?_flatMap ns) h
        rw [← hb] at htail
        obtain ⟨suffix, rest, rfl⟩ := hih.1 htail
        exact ⟨suffix, rest, rfl, rfl⟩
      · rintro ⟨suffix, rest, rfl, rfl⟩
        exact (List.prefix_append_right_inj _).2 (hih.2 ⟨suffix, rest, rfl⟩)

/-- A path's text begins with the root's if it is within the root, or beside it. -/
theorem text_prefix_iff : root.text <+: p.text ↔ Within root p ∨ Beside root p := by
  have htext : ∀ q : PosixPath, q.names ≠ [] → q.text = q.names.flatMap ('/' :: ·) := fun q hq => if_neg hq
  rcases List.eq_nil_or_concat' root.names with hroot | ⟨parents, last, hroot⟩
  · have hslash : root.text = ['/'] := if_pos hroot
    have hp : ['/'] <+: p.text := by
      by_cases hnil : p.names = []
      · rw [text, if_pos hnil]
      · rw [htext p hnil]
        obtain ⟨n, ns, hns⟩ := List.exists_cons_of_ne_nil hnil
        rw [hns]
        exact ⟨n ++ ns.flatMap ('/' :: ·), rfl⟩
    rw [hslash]
    have hwithin : Within root p := by
      rw [Within, hroot]
      exact List.nil_prefix
    exact ⟨fun _ => .inl hwithin, fun _ => hp⟩
  · have hslash : ∀ n ∈ root.names, '/' ∉ n := fun n hn => (root.valid n hn).no_slash
    rw [hroot] at hslash
    have hnames := flatMap_prefix_iff (fun n hn => hslash n (List.mem_append_left _ hn))
      (hslash last (List.mem_append_right _ List.mem_cons_self)) fun n hn => (p.valid n hn).no_slash
    have hbegins : root.text <+: p.text ↔ ∃ suffix rest, p.names = parents ++ (last ++ suffix) :: rest := by
      have hne : root.names ≠ [] := by simp [hroot]
      rw [← hnames, ← hroot, htext root hne]
      by_cases hnil : p.names = []
      · -- a text with a name is longer than a slash
        obtain ⟨n, ns, hns⟩ := List.exists_cons_of_ne_nil hne
        obtain ⟨c, t, hn⟩ := List.exists_cons_of_ne_nil (root.valid n (hns ▸ List.mem_cons_self)).ne_nil
        rw [text, if_pos hnil, hnil, hns, hn]
        simp
      · rw [htext p hnil]
    rw [hbegins]
    constructor
    · rintro ⟨suffix, rest, hp⟩
      by_cases hsuffix : suffix = []
      · refine .inl ⟨rest, ?_⟩
        rw [hroot, hp, hsuffix, List.append_nil, List.append_assoc, List.singleton_append]
      · exact .inr ⟨parents, last, suffix, rest, hroot, hsuffix, hp⟩
    · rintro (⟨rest, hrest⟩ | ⟨parents', last', suffix, rest, hroot', -, hp⟩)
      · refine ⟨[], rest, ?_⟩
        rw [← hrest, hroot, List.append_nil, List.append_assoc, List.singleton_append]
      · obtain ⟨rfl, hlast⟩ := List.append_inj' (hroot.symm.trans hroot') rfl
        obtain rfl := List.singleton_inj.1 hlast
        exact ⟨suffix, rest, hp⟩

end PosixPath
