import Rcllite.InterfaceLines

/-! Service files: a request text, a line of three dashes and a response text. `parse_srv` cuts the raw
text at the first three dashes, wherever they stand. -/
namespace Rcllite.Interface
open PyText

def dashes : List Char := "---".toList

/-- `a` and `b` make the dashes between the two texts a line of their own. -/
structure SeparatorLine (req a b resp : List Char) : Prop where
  before : a = ['\n'] ∨ a = [] ∧ (req = [] ∨ ∃ c ∈ req.getLast?, isLineBreak c = true)
  after : b = ['\n'] ∨ b = [] ∧ resp = []

section Texts
variable {package name : List Char}

theorem parseMsg_newline_after (text : List Char) :
    parseMsg (text ++ ['\n']) package name = parseMsg text package name := by
  rcases splitlines_newline text with h | h
  · rw [parseMsg, h]
    rfl
  · rw [parseMsg, h, parseLines_snoc_nil]
    rfl

theorem parseMsg_newline_before (text : List Char) :
    parseMsg ('\n' :: text) package name = parseMsg text package name := by
  rw [parseMsg, splitlines_newline_cons, parseLines_cons parseLine_nil, parseMsg]
  cases parseLines package name (splitlines text) with
  | error e => rfl
  | ok ms => rfl

theorem parseLine_dashes : parseLine package name dashes = .error (.cannotParse package name dashes) := rfl

variable {req a b resp : List Char}

theorem SeparatorLine.parseMsg_before (h : SeparatorLine req a b resp) :
    parseMsg (req ++ a) package name = parseMsg req package name := by
  rcases h.before with rfl | ⟨rfl, -⟩
  · exact parseMsg_newline_after req
  · rw [List.append_nil]

theorem SeparatorLine.parseMsg_after (h : SeparatorLine req a b resp) :
    parseMsg (b ++ resp) package name = parseMsg resp package name := by
  rcases h.after with rfl | ⟨rfl, -⟩
  · exact parseMsg_newline_before resp
  · rfl

/-- The dashes are a line of what follows them. -/
theorem SeparatorLine.splitlines_dashes (h : SeparatorLine req a b resp) :
    ∃ ls, splitlines (dashes ++ (b ++ resp)) = dashes :: ls := by
  have hone : ∀ c ∈ dashes, isLineBreak c = false := by decide
  rcases h.after with rfl | ⟨rfl, rfl⟩
  · exact ⟨_, splitlines_line hone resp⟩
  · exact ⟨[], splitlines_last hone (by decide)⟩

/-- What stands before the separator line does not end in a dash. -/
theorem SeparatorLine.getLast_before (h : SeparatorLine req a b resp) : ∀ c ∈ (req ++ a).getLast?, c ≠ '-' := by
  rcases h.before with rfl | ⟨rfl, hreq⟩
  · intro c hc
    rw [List.getLast?_concat] at hc
    obtain rfl := Option.some.inj hc
    decide
  · rw [List.append_nil]
    rcases hreq with rfl | ⟨d, hd, hbreak⟩
    · simp
    · intro c hc
      obtain rfl : c = d := Option.mem_unique hc hd
      rintro rfl
      exact absurd hbreak (by decide)

end Texts

section Cut

/-- Three dashes that start in a text without them and reach beyond it leave a dash at its end. -/
theorem not_prefix_of_getLast {t rest : List Char} (hne : t ≠ []) (hlast : ∀ c ∈ t.getLast?, c ≠ '-')
    (hdashes : ¬ dashes <:+: t) : ¬ dashes <+: t ++ rest := by
  intro hpre
  rcases Nat.lt_or_ge t.length dashes.length with hshort | hlong
  · have htake : t <+: dashes :=
      List.prefix_of_prefix_length_le (List.prefix_append t rest) hpre hshort.le
    have hmem := htake.subset (List.getLast_mem hne)
    refine hlast _ (List.getLast?_eq_some_getLast hne) ?_
    simpa [dashes] using hmem
  · exact hdashes (List.prefix_of_prefix_length_le hpre (List.prefix_append t rest) hlong).isInfix

theorem partition_separator {s rest : List Char} (hlast : ∀ c ∈ s.getLast?, c ≠ '-') (h : ¬ dashes <:+: s) :
    partition dashes (s ++ (dashes ++ rest)) = some (s, rest) := by
  refine partition_append (by decide) fun t ht hne => ?_
  refine not_prefix_of_getLast hne ?_ fun hdashes => h (hdashes.trans ht.isInfix)
  intro c hc
  obtain ⟨u, rfl⟩ := ht
  refine hlast c ?_
  rw [List.getLast?_append_of_ne_nil _ hne]
  exact hc

variable {package name req a b resp : List Char}

theorem parseSrv_of_no_dashes (h : SeparatorLine req a b resp) (hdashes : ¬ dashes <:+: req ++ a) :
    parseSrv (req ++ (a ++ (dashes ++ (b ++ resp)))) package name = (do
      let request ← parseMsg req package (name ++ "_Request".toList)
      let response ← parseMsg resp package (name ++ "_Reply".toList)
      .ok ⟨package, name, request, response⟩) := by
  have hcut : partition dashes ((req ++ a) ++ (dashes ++ (b ++ resp))) = some (req ++ a, b ++ resp) :=
    partition_separator h.getLast_before hdashes
  rw [List.append_assoc] at hcut
  rw [parseSrv, ← dashes, hcut]
  simp only [h.parseMsg_before, h.parseMsg_after]

theorem no_dashes_before (h : SeparatorLine req a b resp) (hdashes : ¬ dashes <:+: req) : ¬ dashes <:+: req ++ a := by
  rcases h.before with rfl | ⟨rfl, -⟩
  · rw [List.infix_concat_iff]
    rintro (hsuffix | hreq)
    · obtain ⟨u, hu⟩ := hsuffix
      have hlast := congrArg List.getLast? hu
      rw [List.getLast?_concat, List.getLast?_append_of_ne_nil _ (by decide)] at hlast
      exact absurd hlast (by decide)
    · exact hdashes hreq
  · rwa [List.append_nil]

/-- Dashes in the request cut it there, and the separator line is then a line of the response. -/
theorem parseSrv_of_dashes (h : SeparatorLine req a b resp) (hdashes : dashes <:+: req) :
    ∃ e, parseSrv (req ++ (a ++ (dashes ++ (b ++ resp)))) package name = .error e := by
  obtain ⟨p, q, hreq, hcut⟩ := partition_of_infix (by decide) hdashes
  -- the rest of the request still ends its last line, so the separator stays a line of its own
  have hends : ∃ c ∈ (q ++ a).getLast?, isLineBreak c = true := by
    rcases h.before with rfl | ⟨rfl, hlast⟩
    · exact ⟨'\n', by rw [List.getLast?_concat]; rfl, by decide⟩
    · rw [List.append_nil]
      rcases hlast with rfl | ⟨c, hc, hbreak⟩
      · exact absurd (List.infix_nil.mp hdashes) (by decide)
      · rw [hreq, ← List.append_assoc] at hc
        by_cases hq : q = []
        · rw [hq, List.append_nil, List.getLast?_append_of_ne_nil _ (by decide)] at hc
          obtain rfl := Option.some.inj hc
          exact absurd hbreak (by decide)
        · rw [List.getLast?_append_of_ne_nil _ hq] at hc
          exact ⟨c, hc, hbreak⟩
  obtain ⟨ls, hlines⟩ := h.splitlines_dashes
  have hhead : (dashes ++ (b ++ resp)).head? ≠ some '\n' := by
    intro hhead
    exact absurd (Option.some.inj hhead) (by decide)
  have hmem : dashes ∈ splitlines (q ++ (a ++ (dashes ++ (b ++ resp)))) := by
    rw [← List.append_assoc, splitlines_append hends hhead, hlines]
    exact List.mem_append_right _ List.mem_cons_self
  obtain ⟨e, hresponse⟩ : ∃ e, parseMsg (q ++ (a ++ (dashes ++ (b ++ resp)))) package (name ++ "_Reply".toList) =
    .error e := parseMsg_error hmem parseLine_dashes
  rw [parseSrv, ← dashes, hcut]
  cases hrequest : parseMsg p package (name ++ "_Request".toList) with
  | error e' => exact ⟨e', by simp only [hrequest]; rfl⟩
  | ok request => exact ⟨e, by simp only [hrequest, hresponse]; rfl⟩

/-- A service file is split at its separator line exactly when the request text holds no three dashes in a
row, in a comment, a default or a constant. -/
theorem service_split_at_separator_iff {request response : MsgDef} (h : SeparatorLine req a b resp)
    (hrequest : parseMsg req package (name ++ "_Request".toList) = .ok request)
    (hresponse : parseMsg resp package (name ++ "_Reply".toList) = .ok response) :
    parseSrv (req ++ (a ++ (dashes ++ (b ++ resp)))) package name = .ok ⟨package, name, request, response⟩ ↔
      ¬ dashes <:+: req := by
  constructor
  · intro hok hdashes
    obtain ⟨e, he⟩ := @parseSrv_of_dashes package name req a b resp h hdashes
    rw [he] at hok
    cases hok
  · intro hdashes
    rw [parseSrv_of_no_dashes h (no_dashes_before h hdashes), hrequest, hresponse]
    rfl

theorem service_split_at_separator_iff_add_two_ints :
    ¬ dashes <:+: "int64 a # -- first --\nint64 b\n".toList ∧
      parseSrv "int64 a # -- first --\nint64 b\n---\nint64 sum # --- both ---\n".toList "example".toList
          "AddTwoInts".toList =
        .ok ⟨"example".toList, "AddTwoInts".toList,
          ⟨"example".toList, "AddTwoInts_Request".toList,
            [{ rosType := "int64".toList, name := ['a'] }, { rosType := "int64".toList, name := ['b'] }]⟩,
          ⟨"example".toList, "AddTwoInts_Reply".toList, [{ rosType := "int64".toList, name := "sum".toList }]⟩⟩ := by
  have hfree : ¬ dashes <:+: "int64 a # -- first --\nint64 b\n".toList := by decide
  refine ⟨hfree, ?_⟩
  have hsep : SeparatorLine "int64 a # -- first --\nint64 b\n".toList [] ['\n'] "int64 sum # --- both ---\n".toList :=
    ⟨.inr ⟨rfl, .inr ⟨'\n', by decide, by decide⟩⟩, .inl rfl⟩
  exact (service_split_at_separator_iff hsep rfl rfl).mpr hfree

/-- A comment with three dashes above the request is taken for the separator. -/
theorem dashes_in_comment_split_request :
    parseMsg "# --- request ---\nint32 a\n".toList "example".toList "Echo_Request".toList =
        .ok ⟨"example".toList, "Echo_Request".toList, [{ rosType := "int32".toList, name := ['a'] }]⟩ ∧
      parseMsg "int32 b\n".toList "example".toList "Echo_Reply".toList =
        .ok ⟨"example".toList, "Echo_Reply".toList, [{ rosType := "int32".toList, name := ['b'] }]⟩ ∧
      parseSrv "# --- request ---\nint32 a\n---\nint32 b\n".toList "example".toList "Echo".toList =
        .error (.cannotParse "example".toList "Echo_Reply".toList "request ---".toList) :=
  ⟨rfl, rfl, rfl⟩

end Cut

end Rcllite.Interface
