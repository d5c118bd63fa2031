/-
  URLs of hierarchical schemes: their path segments, and the removal of dot
  segments.

  A segment is a dot segment also when its dots are percent-encoded.  `normalize`
  removes them as every consumer of a URL does; `walk` tells, of the part of a
  path below some directory alone, how far it climbs out of the directory and
  what it names then.  `prefix_normalize_iff` compares the two.
-/
import Mathlib.Data.List.Induction
import Mathlib.Data.List.Infix
import Mathlib.Data.List.TakeWhile

namespace UrlPath

/-! ## Segments -/

abbrev Segment := List Char

def isSeparator (c : Char) : Bool := c == '/' || c == '\\'

/-- Where the path of a URL ends: at its query or its fragment. -/
def endsPath (c : Char) : Bool := c == '?' || c == '#'

/-- A character inside of a segment. -/
def inSegment (c : Char) : Bool := !isSeparator c && !endsPath c

def segments (path : List Char) : List Segment := path.splitOnP isSeparator

/-- The segments, each after a slash. -/
def render (segs : List Segment) : List Char := segs.flatMap fun seg => '/' :: seg

/-- The segment with its percent-encoded dots decoded. -/
def undot : List Char → List Char
  | '%' :: '2' :: 'e' :: s => '.' :: undot s
  | '%' :: '2' :: 'E' :: s => '.' :: undot s
  | c :: s => c :: undot s
  | [] => []

def isSingleDot (seg : Segment) : Bool := undot seg == ['.']

def isDoubleDot (seg : Segment) : Bool := undot seg == ['.', '.']

def isDot (seg : Segment) : Bool := isSingleDot seg || isDoubleDot seg

/-! ## Removal of dot segments -/

/-- The path after one more segment. -/
def step (path : List Segment) (seg : Segment) : List Segment :=
  if isDoubleDot seg then path.dropLast else if isSingleDot seg then path else path ++ [seg]

/-- What a dot segment at the end of a path leaves behind: an empty segment. -/
def final (segs : List Segment) : List Segment := if segs.getLast?.any isDot then [[]] else []

def removeDots (segs : List Segment) : List Segment := segs.foldl step [] ++ final segs

/-- The URL up to its path: the scheme, `://` and the authority. -/
def origin (url : List Char) : List Char :=
  let scheme := url.takeWhile (· != ':')
  let rest := url.drop scheme.length
  scheme ++ rest.take 3 ++ (rest.drop 3).takeWhile inSegment

/-- The URL without dot segments. -/
def normalize (url : List Char) : List Char :=
  let after := url.drop (origin url).length
  let path := after.takeWhile fun c => !endsPath c
  origin url ++ render (removeDots (segments path.tail)) ++ after.drop path.length

/-! ## Climbing out of a directory -/

/-- One more segment below a directory, after climbing `w.1` levels out of it and naming `w.2`. -/
def walkStep (w : ℕ × List Segment) (seg : Segment) : ℕ × List Segment :=
  if isDoubleDot seg then if w.2 = [] then (w.1 + 1, []) else (w.1, w.2.dropLast)
  else if isSingleDot seg then w
  else (w.1, w.2 ++ [seg])

/-- How many levels segments climb out of the directory they start in, and what they then name. -/
def walk (segs : List Segment) : ℕ × List Segment := segs.foldl walkStep (0, [])

/-- Below a directory, segments remove what they climb out of and add what they name. -/
theorem foldl_step (pre segs : List Segment) :
    segs.foldl step pre = pre.take (pre.length - (walk segs).1) ++ (walk segs).2 := by
  induction segs using List.reverseRecOn with
  | nil => simp [walk]
  | append_singleton segs seg ih =>
    have hwalk : walk (segs ++ [seg]) = walkStep (walk segs) seg := by simp [walk]
    rw [List.foldl_append, List.foldl_cons, List.foldl_nil, ih, hwalk]
    obtain ⟨n, below⟩ := walk segs
    by_cases hdd : isDoubleDot seg = true
    · by_cases hb : below = []
      · simp only [step, walkStep, hdd, hb, if_true, List.append_nil]
        simp only [List.dropLast_eq_take, List.take_take, List.length_take]
        congr 1
        omega
      · simp only [step, walkStep, hdd, hb, if_true, if_false]
        rw [List.dropLast_append_of_ne_nil hb]
    · by_cases hsd : isSingleDot seg = true
      · simp only [step, walkStep, hdd, hsd, if_true]; rfl
      · simp only [step, walkStep, hdd, hsd]
        simp

theorem foldl_step_nonDot {segs : List Segment} (h : ∀ seg ∈ segs, isDot seg = false)
    (pre : List Segment) :
    segs.foldl step pre = pre ++ segs := by
  induction segs generalizing pre with
  | nil => simp
  | cons seg segs ih =>
    have hseg := h seg List.mem_cons_self
    simp only [isDot, Bool.or_eq_false_iff] at hseg
    have hstep : step pre seg = pre ++ [seg] := by simp [step, hseg.1, hseg.2]
    rw [List.foldl_cons, hstep, ih fun x hx => h x (List.mem_cons_of_mem _ hx)]
    simp

/-- What a path below a directory names there, dot segments removed. -/
def named (segs : List Segment) : List Segment := (walk segs).2 ++ final segs

theorem removeDots_append {pre segs : List Segment} (hpre : ∀ seg ∈ pre, isDot seg = false)
    (hsegs : segs ≠ []) :
    removeDots (pre ++ segs) = pre.take (pre.length - (walk segs).1) ++ named segs := by
  have hlast : (pre ++ segs).getLast? = segs.getLast? := by
    rw [List.getLast?_append_of_ne_nil _ hsegs]
  rw [removeDots, List.foldl_append, foldl_step_nonDot hpre, List.nil_append, foldl_step,
    named, final,
    final, hlast, List.append_assoc]

theorem named_ne_nil {segs : List Segment} (h : segs ≠ []) : named segs ≠ [] := by
  obtain ⟨segs, seg, rfl⟩ := (List.eq_nil_or_concat' segs).resolve_left h
  by_cases hdot : isDot seg = true
  · simp [named, final, hdot]
  · simp only [Bool.not_eq_true, isDot, Bool.or_eq_false_iff] at hdot
    simp [named, walk, walkStep, hdot.1, hdot.2]

theorem mem_removeDots {segs : List Segment} {seg : Segment} (h : seg ∈ removeDots segs) :
    seg ∈ segs ∨ seg = [] := by
  have hfold (l pre : List Segment) (h : seg ∈ l.foldl step pre) : seg ∈ pre ∨ seg ∈ l := by
    induction l generalizing pre with
    | nil => exact Or.inl h
    | cons x l ih =>
      rcases ih _ h with hs | hl
      · unfold step at hs
        split_ifs at hs
        · exact Or.inl (List.mem_of_mem_dropLast hs)
        · exact Or.inl hs
        · rcases List.mem_append.1 hs with hs | hs
          · exact Or.inl hs
          · exact Or.inr (by simp_all)
      · exact Or.inr (List.mem_cons_of_mem _ hl)
  rcases List.mem_append.1 h with h | h
  · exact Or.inl ((hfold _ _ h).resolve_left List.not_mem_nil)
  · unfold final at h
    split_ifs at h
    · exact Or.inr (List.mem_singleton.1 h)
    · exact absurd h List.not_mem_nil

/-! ## Splitting and rendering -/

theorem segments_ne_nil (path : List Char) : segments path ≠ [] := List.splitOnP_ne_nil _ _

theorem mem_segments {path : List Char} {seg : Segment} (h : seg ∈ segments path) :
    ∀ c ∈ seg, isSeparator c = false ∧ c ∈ path := by
  induction path generalizing seg with
  | nil => simp_all [segments]
  | cons x path ih =>
    rw [segments, List.splitOnP_cons_eq_if_modifyHead] at h
    split_ifs at h with hx
    · rcases List.mem_cons.1 h with rfl | h
      · simp
      · exact fun c hc => (ih h c hc).imp_right (List.mem_cons_of_mem _)
    · obtain ⟨y, l, hyl⟩ := List.exists_cons_of_ne_nil (segments_ne_nil path)
      rw [show path.splitOnP isSeparator = y :: l from hyl, List.modifyHead_cons] at h
      rcases List.mem_cons.1 h with rfl | h
      · intro c hc
        rcases List.mem_cons.1 hc with rfl | hc
        · exact ⟨by simpa using hx, List.mem_cons_self⟩
        · exact (ih (hyl ▸ List.mem_cons_self) c hc).imp_right (List.mem_cons_of_mem _)
      · intro c hc
        exact (ih (hyl ▸ List.mem_cons_of_mem _ h) c hc).imp_right (List.mem_cons_of_mem _)

/-- A segment is told from what follows it by the first character outside of segments. -/
theorem chunk_prefix {p s x y : List Char} (hp : ∀ c ∈ p, inSegment c = true)
    (hs : ∀ c ∈ s, inSegment c = true) (hy : ∀ c ∈ y.head?, inSegment c = false) :
    p ++ '/' :: x <+: s ++ y ↔ p = s ∧ '/' :: x <+: y := by
  induction p generalizing s with
  | nil =>
    cases s with
    | nil => simp
    | cons c s =>
      have hc := hs c List.mem_cons_self
      simp only [List.nil_append, List.cons_append, List.cons_prefix_cons]
      constructor
      · rintro ⟨rfl, -⟩; cases hc
      · rintro ⟨h, -⟩; cases h
  | cons a p ih =>
    have ha := hp a List.mem_cons_self
    cases s with
    | nil =>
      cases y with
      | nil => simp
      | cons b y =>
        have hb := hy b rfl
        simp only [List.nil_append, List.cons_append, List.cons_prefix_cons]
        constructor
        · rintro ⟨rfl, -⟩; rw [ha] at hb; cases hb
        · rintro ⟨h, -⟩; cases h
    | cons c s =>
      have := ih (fun c hc => hp c (List.mem_cons_of_mem _ hc))
        fun c hc => hs c (List.mem_cons_of_mem _ hc)
      simp only [List.cons_append, List.cons_prefix_cons, List.cons.injEq, this, and_assoc]

theorem render_prefix {pre segs : List Segment} {suffix : List Char}
    (hpre : ∀ seg ∈ pre, ∀ c ∈ seg, inSegment c = true)
    (hsegs : ∀ seg ∈ segs, ∀ c ∈ seg, inSegment c = true)
    (hsuf : ∀ c ∈ suffix.head?, endsPath c = true) :
    render pre ++ ['/'] <+: render segs ++ suffix ↔ ∃ rest, rest ≠ [] ∧ segs = pre ++ rest := by
  have hslash (c : Char) (hc : c ∈ suffix.head?) : '/' ≠ c := by
    rintro rfl; exact absurd (hsuf _ hc) (by decide)
  have hstop (segs : List Segment) : ∀ c ∈ (render segs ++ suffix).head?, inSegment c = false := by
    intro c hc
    cases segs with
    | nil => simp [inSegment, hsuf c hc]
    | cons seg segs => obtain rfl : '/' = c := by simpa [render] using hc
                       decide
  induction pre generalizing segs with
  | nil =>
    cases segs with
    | nil =>
      cases suffix with
      | nil => simp [render]
      | cons c suffix => simp [render, hslash c rfl]
    | cons seg segs => simp [render]
  | cons p pre ih =>
    cases segs with
    | nil =>
      cases suffix with
      | nil => simp [render]
      | cons c suffix => simp [render, hslash c rfl]
    | cons seg segs =>
      have hrest := ih (fun x hx => hpre x (List.mem_cons_of_mem _ hx))
        (fun x hx => hsegs x (List.mem_cons_of_mem _ hx))
      obtain ⟨x, hx⟩ : ∃ x, render pre ++ ['/'] = '/' :: x := by
        cases pre with
        | nil => exact ⟨_, rfl⟩
        | cons p pre => exact ⟨_, rfl⟩
      have hpre' : render (p :: pre) ++ ['/'] = '/' :: (p ++ '/' :: x) := by
        rw [← hx]
        simp [render]
      have hsegs' : render (seg :: segs) ++ suffix = '/' :: (seg ++ (render segs ++ suffix)) := by
        simp [render]
      rw [hpre', hsegs', List.cons_prefix_cons, chunk_prefix (hpre p List.mem_cons_self)
        (hsegs seg List.mem_cons_self) (hstop segs), ← hx]
      constructor
      · rintro ⟨-, rfl, h⟩
        obtain ⟨rest, hne, rfl⟩ := hrest.1 h
        exact ⟨rest, hne, rfl⟩
      · rintro ⟨rest, hne, h⟩
        obtain ⟨rfl, htl⟩ := List.cons.inj h
        exact ⟨rfl, rfl, hrest.2 ⟨rest, hne, htl⟩⟩

/-- Splitting is the inverse of rendering. -/
theorem segments_render {pre : List Segment} (hpre : ∀ seg ∈ pre, ∀ c ∈ seg, inSegment c = true)
    (path : List Char) : segments ((render pre ++ '/' :: path).tail) = pre ++ segments path := by
  induction pre with
  | nil => rfl
  | cons seg pre ih =>
    have hcons : ∃ x, render pre ++ '/' :: path = '/' :: x := by
      cases pre with
      | nil => exact ⟨_, rfl⟩
      | cons p pre => exact ⟨_, rfl⟩
    obtain ⟨x, hx⟩ := hcons
    have ih := ih fun s hs => hpre s (List.mem_cons_of_mem _ hs)
    rw [hx, List.tail_cons] at ih
    have hseg : ∀ c ∈ seg, isSeparator c = false := fun c hc => by
      have := hpre seg List.mem_cons_self c hc
      simp only [inSegment, Bool.and_eq_true, Bool.not_eq_true'] at this
      exact this.1
    have htail : (render (seg :: pre) ++ '/' :: path).tail = seg ++ '/' :: x := by
      rw [← hx]; simp [render]
    rw [htail, segments, List.splitOnP_append_cons_of_forall_mem hseg _ (by decide),
      show x.splitOnP isSeparator = _ from ih, List.cons_append]

/-! ## Directories -/

/-- The URL of a directory: its path ends in a slash and has no dot segments. -/
structure Directory where
  scheme : List Char
  authority : List Char
  segs : List Segment
  scheme_ok : ':' ∉ scheme
  authority_ok : ∀ c ∈ authority, inSegment c = true
  segs_ok : ∀ seg ∈ segs, isDot seg = false ∧ ∀ c ∈ seg, inSegment c = true

namespace Directory

variable (b : Directory) (tail : List Char)

def origin : List Char := b.scheme ++ ':' :: '/' :: '/' :: b.authority

def url : List Char := b.origin ++ (render b.segs ++ ['/'])

/-- The segments of what follows the directory in a URL. -/
def below : List Segment := segments (tail.takeWhile fun c => !endsPath c)

/-- What follows the directory in a URL does not climb out of it, or it names again what it has
    climbed out of. -/
def Contains : Prop :=
  ∃ rest, rest ≠ [] ∧
    named (below tail) = b.segs.drop (b.segs.length - (walk (below tail)).1) ++ rest

theorem takeWhile_append_stop {p : Char → Bool} {l : List Char} (h : ∀ c ∈ l, p c = true) {x : Char}
    (hx : p x = false) (rest : List Char) : (l ++ x :: rest).takeWhile p = l := by
  rw [List.takeWhile_append_of_pos h, List.takeWhile_cons_of_neg (by simp [hx]), List.append_nil]

theorem origin_url : UrlPath.origin (b.url ++ tail) = b.origin := by
  obtain ⟨x, hx⟩ : ∃ x, render b.segs ++ '/' :: tail = '/' :: x := by
    cases b.segs with
    | nil => exact ⟨_, rfl⟩
    | cons p pre => exact ⟨_, rfl⟩
  have hurl : b.url ++ tail = b.scheme ++ ':' :: '/' :: '/' :: (b.authority ++ '/' :: x) := by
    rw [← hx]; simp [url, origin]
  have hscheme : (b.url ++ tail).takeWhile (· != ':') = b.scheme := by
    rw [hurl]
    refine takeWhile_append_stop (fun c hc => ?_) (by decide) _
    simp only [bne_iff_ne, ne_eq]
    rintro rfl
    exact b.scheme_ok hc
  have hauthority : (b.authority ++ '/' :: x).takeWhile inSegment = b.authority :=
    takeWhile_append_stop b.authority_ok (by decide) _
  have hrest : (b.url ++ tail).drop b.scheme.length =
      ':' :: '/' :: '/' :: (b.authority ++ '/' :: x) := by
    rw [hurl, List.drop_left]
  simp only [UrlPath.origin, hscheme, hrest, List.take, List.drop, hauthority, origin]
  simp

theorem normalize_url : normalize (b.url ++ tail) =
    b.origin ++ (render (removeDots (b.segs ++ below tail)) ++
      tail.dropWhile fun c => !endsPath c) := by
  have hafter : (b.url ++ tail).drop b.origin.length = render b.segs ++ '/' :: tail := by
    simp [url]
  have hsegs (seg : Segment) (hs : seg ∈ b.segs) : ∀ c ∈ seg, inSegment c = true :=
    (b.segs_ok seg hs).2
  have hdir : ∀ c ∈ render b.segs ++ ['/'], (!endsPath c) = true := by
    intro c hc
    have hslash : (!endsPath '/') = true := by decide
    simp only [render, List.mem_append, List.mem_flatMap, List.mem_cons, List.not_mem_nil,
      or_false] at hc
    rcases hc with ⟨seg, hs, rfl | hc⟩ | rfl
    · exact hslash
    · have := hsegs seg hs c hc
      simp only [inSegment, Bool.and_eq_true] at this
      exact this.2
    · exact hslash
  have hpath : (render b.segs ++ '/' :: tail).takeWhile (fun c => !endsPath c) =
      render b.segs ++ '/' :: tail.takeWhile fun c => !endsPath c := by
    have : (render b.segs ++ ['/'] ++ tail).takeWhile (fun c => !endsPath c) =
        render b.segs ++ ['/'] ++ tail.takeWhile fun c => !endsPath c :=
      List.takeWhile_append_of_pos hdir
    simpa using this
  have hsuffix : (render b.segs ++ '/' :: tail).drop
      (render b.segs ++ '/' :: tail.takeWhile fun c => !endsPath c).length =
      tail.dropWhile fun c => !endsPath c := by
    have hsplit : render b.segs ++ '/' :: tail =
        (render b.segs ++ '/' :: tail.takeWhile fun c => !endsPath c) ++
        tail.dropWhile fun c => !endsPath c := by
      rw [List.append_assoc, List.cons_append, List.takeWhile_append_dropWhile]
    conv_lhs => rw [hsplit]
    exact List.drop_left
  simp only [normalize, origin_url, hafter, hpath, hsuffix, segments_render hsegs, below,
    List.append_assoc]

/-- **Without dot segments a URL below a directory begins with the directory if and only if it does
    not climb out of it**, or names it again. -/
theorem prefix_normalize_iff : b.url <+: normalize (b.url ++ tail) ↔ b.Contains tail := by
  have hpre (seg : Segment) (hs : seg ∈ b.segs) : ∀ c ∈ seg, inSegment c = true :=
    (b.segs_ok seg hs).2
  have hR : ∀ seg ∈ removeDots (b.segs ++ below tail), ∀ c ∈ seg, inSegment c = true := by
    intro seg hs c hc
    rcases mem_removeDots hs with hs | rfl
    · rcases List.mem_append.1 hs with hs | hs
      · exact hpre seg hs c hc
      · obtain ⟨hsep, hmem⟩ := mem_segments hs c hc
        have hend := List.mem_takeWhile_imp hmem
        simp [inSegment, hsep, hend]
    · cases hc
  have hsuf : ∀ c ∈ (tail.dropWhile fun c => !endsPath c).head?, endsPath c = true := by
    intro c hc
    have := List.head?_dropWhile_not (fun c => !endsPath c) tail
    rw [Option.mem_def.1 hc] at this
    simpa using this
  have hremove : removeDots (b.segs ++ below tail) =
      b.segs.take (b.segs.length - (walk (below tail)).1) ++ named (below tail) :=
    removeDots_append (fun seg hs => (b.segs_ok seg hs).1) (segments_ne_nil _)
  rw [normalize_url, url, List.prefix_append_right_inj, render_prefix hpre hR hsuf, hremove,
    Contains]
  refine exists_congr fun rest => and_congr_right fun _ => ?_
  conv_lhs => rhs; rw [← List.take_append_drop (b.segs.length - (walk (below tail)).1) b.segs]
  rw [List.append_assoc, List.append_cancel_left_eq]

/-- What never climbs out of the directory is contained in it. -/
theorem contains_of_walk {b : Directory} {tail : List Char} (h : (walk (below tail)).1 = 0) :
    b.Contains tail := by
  refine ⟨named (below tail), named_ne_nil (segments_ne_nil _), ?_⟩
  rw [h, Nat.sub_zero, List.drop_length, List.nil_append]

end Directory

end UrlPath
