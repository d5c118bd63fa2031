/-
  Which texts are accepted as tokens, in a header and in a handshake.
-/
import Marketplace.Auth

namespace Marketplace

/-! ## Bearer -/

theorem isBearer_iff {s : String} : isBearer s = true ↔ s.toList.map Char.toLower = "bearer".toList :=
  decide_eq_true_iff

theorem isBearer_length {s : String} (h : isBearer s = true) : s.toList.length = 6 := by
  rw [← List.length_map Char.toLower, isBearer_iff.1 h]; rfl

theorem not_isSpace_of_any {l : List Char} (h : l.any isSpace = false) :
    ∀ c ∈ l, isSpace c = false :=
  fun c hc => eq_false_of_ne_true (List.any_eq_false.1 h c hc)

/-- A text of which nothing is cut by white space. -/
def IsWord (s : String) : Prop := s ≠ "" ∧ ∀ c ∈ s.toList, isSpace c = false

theorem toList_ne_nil {s : String} (h : s ≠ "") : s.toList ≠ [] := by
  intro hnil
  exact h (String.toList_inj.1 hnil)

/-- `value` is the scheme, white space, and `token`, with white space or more words around them. -/
def Bears (value token : String) : Prop :=
  ∃ scheme, isBearer scheme = true ∧ Words.Begins isSpace value.toList scheme.toList token.toList

theorem splitSpaces_trim {value scheme token : String} (hs : scheme ≠ "") (ht : token ≠ "") :
    (∃ rest, splitSpaces (trim value) = scheme :: token :: rest) ↔
      Words.Begins isSpace value.toList scheme.toList token.toList := by
  rw [← Words.split_strip_iff (toList_ne_nil hs) (toList_ne_nil ht)]
  have htrim : (trim value).toList = Words.strip isSpace value.toList := String.toList_ofList
  rw [splitSpaces, htrim]
  constructor
  · rintro ⟨rest, h⟩
    refine ⟨rest.map String.toList, List.map_injective_iff.2 (fun _ _ => String.ofList_inj.1) ?_⟩
    rw [h]
    simp [Function.comp_def]
  · rintro ⟨rest, h⟩
    exact ⟨rest.map String.ofList, by rw [h]; simp⟩

theorem Bears.word {value token : String} (h : Bears value token) : IsWord token := by
  obtain ⟨scheme, -, hb⟩ := h
  refine ⟨?_, hb.snd.2⟩
  rintro rfl
  exact hb.snd.1 rfl

theorem extractBearerToken_iff {header : Option HeaderValue} {token : String} :
    extractBearerToken header = some token ↔
      ∃ value, header.bind HeaderValue.first? = some value ∧ Bears value token := by
  unfold extractBearerToken
  constructor
  · intro h
    split at h
    · cases h
    · rename_i value hvalue
      obtain ⟨hvalue, -⟩ := Option.filter_eq_some_iff.1 hvalue
      split at h
      · rename_i scheme token' rest hsplit
        obtain ⟨⟨hbearer, hne⟩, h⟩ := Option.ite_none_right_eq_some.1 h
        cases h
        have hscheme : scheme ≠ "" := by
          rintro rfl
          cases isBearer_length hbearer
        exact ⟨value, hvalue, scheme, hbearer, (splitSpaces_trim hscheme hne).1 ⟨rest, hsplit⟩⟩
      · cases h
  · rintro ⟨value, hvalue, hbears⟩
    obtain ⟨hne, -⟩ := hbears.word
    obtain ⟨scheme, hbearer, hbegins⟩ := hbears
    have hscheme : scheme ≠ "" := by
      rintro rfl
      cases isBearer_length hbearer
    obtain ⟨rest, hsplit⟩ := (splitSpaces_trim hscheme hne).2 hbegins
    have hvalue' : value ≠ "" := by
      rintro rfl
      obtain ⟨_, _, _, hl, -⟩ := hbegins.split
      simp [toList_ne_nil hscheme] at hl
    have hfilter : (header.bind HeaderValue.first?).filter (· ≠ "") = some value :=
      Option.filter_eq_some_iff.2 ⟨hvalue, by simpa using hvalue'⟩
    rw [hfilter]
    dsimp only
    rw [hsplit]
    dsimp only
    rw [if_pos ⟨hbearer, hne⟩]

/-! ## Handshakes -/

/-- What remains is the text itself, or what follows the scheme. -/
theorem stripBearer_iff {s token : String} (ht : IsWord token) : stripBearer s = token ↔
    s = token ∨ ∃ scheme gap, s.toList = scheme ++ (gap ++ token.toList) ∧
      isBearer (String.ofList scheme) = true ∧ gap ≠ [] ∧ ∀ c ∈ gap, isSpace c = true := by
  constructor
  · intro h
    unfold stripBearer at h
    dsimp only at h
    split_ifs at h with hif
    · obtain ⟨hbearer, hspace⟩ := hif
      refine Or.inr ⟨s.toList.take 6, (s.toList.drop 6).takeWhile isSpace, ?_, hbearer, ?_,
        fun c hc => List.mem_takeWhile_imp hc⟩
      · rw [← h, String.toList_ofList, List.takeWhile_append_dropWhile, List.take_append_drop]
      · obtain ⟨c, hc, hspace⟩ := (Option.any_eq_true ..).1 hspace
        obtain ⟨l, hl⟩ := List.head?_eq_some_iff.1 hc
        rw [hl, List.takeWhile_cons_of_pos hspace]
        exact List.cons_ne_nil _ _
    · exact Or.inl h
  · rintro (rfl | ⟨scheme, gap, hs, hbearer, hgap, hspaces⟩)
    · unfold stripBearer
      dsimp only
      split_ifs with hif
      · -- a word has no white space after its first six characters
        obtain ⟨c, hc, hspace⟩ := (Option.any_eq_true ..).1 hif.2
        rw [ht.2 c (List.mem_of_mem_drop (List.mem_of_head? hc))] at hspace
        cases hspace
      · rfl
    · have hlen : scheme.length = 6 := by simpa using isBearer_length hbearer
      have htake : s.toList.take 6 = scheme := by rw [hs, ← hlen, List.take_left]
      have hdrop : s.toList.drop 6 = gap ++ token.toList := by rw [hs, ← hlen, List.drop_left]
      obtain ⟨c, hc⟩ : ∃ c, gap.head? = some c :=
        Option.ne_none_iff_exists'.1 fun h => hgap (List.head?_eq_none_iff.1 h)
      have hany : (gap ++ token.toList).head?.any isSpace = true := by
        rw [List.head?_append, hc]
        exact hspaces c (List.mem_of_head? hc)
      unfold stripBearer
      dsimp only
      rw [htake, hdrop, if_pos ⟨hbearer, hany⟩,
        Words.dropWhile_self hspaces fun c hc => ht.2 c (List.mem_of_head? hc), String.ofList_toList]

/-- **Which requests and handshakes carry a token.**  A header carries it behind the scheme, in any
    case; a handshake carries it in `auth`, behind the scheme or not, and without a text there in the
    header, and without a token there in the query. -/
theorem tokens_carried {token : String} (ht : IsWord token) :
    (∀ header, extractBearerToken header = some token ↔
      ∃ value, header.bind HeaderValue.first? = some value ∧ Bears value token) ∧
    ∀ handshake, extractSocketToken handshake = some token ↔
      (∃ auth ∈ handshake.authToken, auth = token ∨ ∃ scheme gap,
        auth.toList = scheme ++ (gap ++ token.toList) ∧ isBearer (String.ofList scheme) = true ∧
        gap ≠ [] ∧ ∀ c ∈ gap, isSpace c = true) ∨
      (∀ auth ∈ handshake.authToken, auth = "") ∧
        ((∃ value, handshake.authorization.bind HeaderValue.first? = some value ∧ Bears value token) ∨
          handshake.queryToken = some token ∧
            ¬ ∃ value other, handshake.authorization.bind HeaderValue.first? = some value ∧
              Bears value other) := by
  refine ⟨fun header => extractBearerToken_iff, fun handshake => ?_⟩
  have hnone : extractBearerToken handshake.authorization = none ↔ ¬ ∃ value other,
      handshake.authorization.bind HeaderValue.first? = some value ∧ Bears value other := by
    rw [Option.eq_none_iff_forall_ne_some]
    simp only [ne_eq, extractBearerToken_iff, not_exists]
    exact forall_comm
  have hquery : handshake.queryToken.filter (· ≠ "") = some token ↔
      handshake.queryToken = some token := by
    rw [Option.filter_eq_some_iff]
    exact and_iff_left (by simpa using ht.1)
  unfold extractSocketToken
  cases hauth : handshake.authToken.filter (· ≠ "") with
  | some auth =>
    obtain ⟨hsome, hne⟩ := Option.filter_eq_some_iff.1 hauth
    have hne : auth ≠ "" := by simpa using hne
    simp only [hsome, Option.some.injEq, Option.mem_def, exists_eq_left', stripBearer_iff ht,
      forall_eq', hne, false_and, or_false]
  | none =>
    have hempty : ∀ auth ∈ handshake.authToken, auth = "" := by
      intro auth hmem
      have := Option.filter_eq_none_iff.1 hauth auth hmem
      simpa using this
    have hno : ¬ ∃ auth ∈ handshake.authToken, auth = token ∨ ∃ scheme gap,
        auth.toList = scheme ++ (gap ++ token.toList) ∧ isBearer (String.ofList scheme) = true ∧
        gap ≠ [] ∧ ∀ c ∈ gap, isSpace c = true := by
      rintro ⟨auth, hmem, h⟩
      cases hempty auth hmem
      rcases h with h | ⟨scheme, gap, h, -⟩
      · exact ht.1 h.symm
      · simp [toList_ne_nil ht.1] at h
    dsimp only
    rw [Option.or_eq_some_iff, extractBearerToken_iff, hnone, hquery]
    constructor
    · intro h
      exact Or.inr ⟨hempty, h.imp_right And.symm⟩
    · rintro (h | ⟨-, h⟩)
      · exact absurd h hno
      · exact h.imp_right And.symm

/-- Each way to send a token. -/
theorem tokens_carried_sample :
    extractBearerToken (some (.one "  BEARER\tabc.def  x ")) = some "abc.def" ∧
      extractSocketToken ⟨some "abc.def", none, none⟩ = some "abc.def" := by
  have hword : IsWord "abc.def" := ⟨by decide, not_isSpace_of_any (by decide +kernel)⟩
  obtain ⟨hheader, hsocket⟩ := tokens_carried hword
  refine ⟨(hheader _).2 ⟨_, rfl, "BEARER", by decide +kernel, ⟨?_, ?_, ?_⟩⟩,
    (hsocket _).2 (Or.inl ⟨_, rfl, Or.inl rfl⟩)⟩
  · refine ⟨[' ', ' '], ['\t'], [' ', ' ', 'x', ' '], by decide +kernel,
      List.all_eq_true.1 (by decide), ⟨by decide, List.all_eq_true.1 (by decide)⟩, ?_⟩
    rintro c ⟨⟩
    decide
  · exact ⟨by decide, not_isSpace_of_any (by decide +kernel)⟩
  · exact ⟨by decide, not_isSpace_of_any (by decide +kernel)⟩

end Marketplace
