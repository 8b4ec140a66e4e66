import Rcllite.Names

/-! Type names: what `dds_type_name` makes of a string, and the name the generated code has for a message. -/
namespace Rcllite
open Utf8 (literal)

/-- A package, a kind or a message name. -/
structure TypePart (p : List UInt8) : Prop where
  ne_nil : p ≠ []
  no_slash : 0x2f ∉ p
  no_colon : 0x3a ∉ p

/-- `pkg::msg::dds_::Name_` -/
def DdsForm (t : List UInt8) : Prop :=
  ∃ p k n, TypePart p ∧ TypePart k ∧ TypePart n ∧
    t = p ++ literal "::" ++ k ++ literal "::dds_::" ++ n ++ literal "_"

/-- `pkg/msg/Name` -/
def RosForm (t : List UInt8) : Prop :=
  ∃ p k n, TypePart p ∧ TypePart k ∧ TypePart n ∧ t = p ++ literal "/" ++ k ++ literal "/" ++ n

/-- The literal that `dds_name` returns in the header `emit_msg_header` writes. -/
def messageDdsName (pkg name : List UInt8) : List UInt8 := pkg ++ literal "::msg::dds_::" ++ name ++ literal "_"

section Rewriting

theorem colons_literal : literal "::" = [0x3a, 0x3a] := by decide

theorem ddsTypeName_of_colons {t : List UInt8} (h : literal "::" <:+: t) : ddsTypeName t = .ok t := if_pos h

theorem ddsTypeName_no_slash {t : List UInt8} (h : ¬ literal "::" <:+: t) (hslash : 0x2f ∉ t) :
    ∃ e, ddsTypeName t = .error e := by
  rw [ddsTypeName, if_neg h, Tokens.rfind_none hslash]
  exact ⟨_, rfl⟩

theorem drop_past (a n : List UInt8) : (a ++ 0x2f :: n).drop (a.length + 1) = n := by
  rw [List.drop_append, List.drop_eq_nil_of_le (Nat.le_succ _), Nat.add_sub_cancel_left, List.nil_append]
  rfl

theorem ddsTypeName_one_slash {a n : List UInt8} (h : ¬ literal "::" <:+: a ++ 0x2f :: n) (ha : 0x2f ∉ a)
    (hn : 0x2f ∉ n) : ddsTypeName (a ++ 0x2f :: n) = .ok (a ++ literal "::dds_::" ++ n ++ literal "_") := by
  rw [ddsTypeName, if_neg h, Tokens.rfind_append a hn]
  dsimp only
  rw [List.take_left, drop_past, Tokens.find_none ha]

/-- With more than two slashes, those between the first and the last stay in `k`. -/
theorem ddsTypeName_more_slashes {p k n : List UInt8} (h : ¬ literal "::" <:+: p ++ 0x2f :: k ++ 0x2f :: n)
    (hp : 0x2f ∉ p) (hn : 0x2f ∉ n) :
    ddsTypeName (p ++ 0x2f :: k ++ 0x2f :: n) =
      .ok (p ++ literal "::" ++ k ++ literal "::dds_::" ++ n ++ literal "_") := by
  rw [ddsTypeName, if_neg h, Tokens.rfind_append _ hn]
  dsimp only
  rw [List.take_left, drop_past, Tokens.find_append hp]
  dsimp only
  rw [List.take_left, drop_past]

/-- The ways a string can go. -/
theorem type_cases (t : List UInt8) :
    literal "::" <:+: t ∨ (¬ literal "::" <:+: t ∧ 0x2f ∉ t) ∨
      (∃ a n, ¬ literal "::" <:+: t ∧ 0x2f ∉ a ∧ 0x2f ∉ n ∧ t = a ++ 0x2f :: n) ∨
      ∃ p k n, ¬ literal "::" <:+: t ∧ 0x2f ∉ p ∧ 0x2f ∉ n ∧ t = p ++ 0x2f :: k ++ 0x2f :: n := by
  by_cases hcolons : literal "::" <:+: t
  · exact .inl hcolons
  by_cases hslash : 0x2f ∈ t
  · obtain ⟨a, n, hn, rfl⟩ := Tokens.exists_last hslash
    by_cases ha : 0x2f ∈ a
    · obtain ⟨p, k, rfl, hp⟩ := List.eq_append_cons_of_mem ha
      exact .inr (.inr (.inr ⟨p, k, n, hcolons, hp, hn, rfl⟩))
    · exact .inr (.inr (.inl ⟨a, n, hcolons, ha, hn, rfl⟩))
  · exact .inr (.inl ⟨hcolons, hslash⟩)

end Rewriting

section Pieces

theorem splitOn_colons (a b : List UInt8) :
    (a ++ literal "::" ++ b).splitOn 0x3a = a.splitOn 0x3a ++ [] :: b.splitOn 0x3a := by
  rw [colons_literal, List.append_assoc, List.cons_append, List.splitOn_append_cons_self, List.singleton_append,
    ← List.nil_append (0x3a :: b), List.splitOn_append_cons_self, List.splitOn_nil, List.singleton_append]

theorem splitOn_dds (a b : List UInt8) :
    (a ++ literal "::dds_::" ++ b).splitOn 0x3a =
      a.splitOn 0x3a ++ [] :: literal "dds_" :: [] :: b.splitOn 0x3a := by
  have hmark : literal "::dds_::" = literal "::" ++ literal "dds_" ++ literal "::" := by decide
  have hdds : (literal "dds_").splitOn 0x3a = [literal "dds_"] := List.splitOn_eq_singleton (by decide)
  rw [hmark, ← List.append_assoc, ← List.append_assoc, splitOn_colons, splitOn_colons, hdds, List.append_assoc]
  rfl

/-- A string in one piece has no colon. -/
theorem of_splitOn_singleton {l x : List UInt8} (h : l.splitOn 0x3a = [x]) : l = x ∧ 0x3a ∉ l := by
  have hl : [0x3a].intercalate (l.splitOn 0x3a) = l := List.intercalate_splitOn _
  rw [h, List.intercalate_singleton] at hl
  refine ⟨hl.symm, fun hmem => ?_⟩
  obtain ⟨a, b, hab⟩ := List.append_of_mem hmem
  have hlen := congrArg List.length h
  have ha := List.length_pos_iff.mpr (List.splitOn_ne_nil (0x3a : UInt8) a)
  have hb := List.length_pos_iff.mpr (List.splitOn_ne_nil (0x3a : UInt8) b)
  rw [hab, List.splitOn_append_cons_self, List.length_append, List.length_singleton] at hlen
  omega

theorem splitOn_ddsForm {p k n : List UInt8} (hp : 0x3a ∉ p) (hk : 0x3a ∉ k) (hn : 0x3a ∉ n) :
    (p ++ literal "::" ++ k ++ literal "::dds_::" ++ n ++ literal "_").splitOn 0x3a =
      [p, [], k, [], literal "dds_", [], n ++ literal "_"] := by
  have hlast : 0x3a ∉ n ++ literal "_" := by
    rw [List.mem_append, not_or]
    exact ⟨hn, by decide⟩
  rw [List.append_assoc _ n, splitOn_dds, splitOn_colons, List.splitOn_eq_singleton hp,
    List.splitOn_eq_singleton hk, List.splitOn_eq_singleton hlast]
  rfl

/-- Three parts give a DDS name exactly when each is one. -/
theorem ddsForm_iff {p k n : List UInt8} :
    DdsForm (p ++ literal "::" ++ k ++ literal "::dds_::" ++ n ++ literal "_") ↔
      TypePart p ∧ TypePart k ∧ TypePart n := by
  refine ⟨?_, fun ⟨hp, hk, hn⟩ => ⟨p, k, n, hp, hk, hn, rfl⟩⟩
  rintro ⟨p', k', n', hp, hk, hn, heq⟩
  have hsplit := congrArg (List.splitOn 0x3a) heq
  rw [splitOn_ddsForm hp.no_colon hk.no_colon hn.no_colon, List.append_assoc _ n, splitOn_dds,
    splitOn_colons] at hsplit
  -- seven pieces leave one for each part
  have hlen := congrArg List.length hsplit
  obtain ⟨x, hx⟩ : ∃ x, p.splitOn 0x3a = [x] := by
    apply List.length_eq_one_iff.mp
    have h1 := List.length_pos_iff.mpr (List.splitOn_ne_nil (0x3a : UInt8) p)
    have h2 := List.length_pos_iff.mpr (List.splitOn_ne_nil (0x3a : UInt8) k)
    have h3 := List.length_pos_iff.mpr (List.splitOn_ne_nil (0x3a : UInt8) (n ++ literal "_"))
    simp only [List.length_append, List.length_cons, List.length_nil] at hlen
    omega
  obtain ⟨y, hy⟩ : ∃ y, k.splitOn 0x3a = [y] := by
    apply List.length_eq_one_iff.mp
    have h2 := List.length_pos_iff.mpr (List.splitOn_ne_nil (0x3a : UInt8) k)
    have h3 := List.length_pos_iff.mpr (List.splitOn_ne_nil (0x3a : UInt8) (n ++ literal "_"))
    rw [hx] at hlen
    simp only [List.length_append, List.length_cons, List.length_nil] at hlen
    omega
  rw [hx, hy] at hsplit
  simp only [List.cons_append, List.nil_append, List.cons.injEq, true_and] at hsplit
  obtain ⟨rfl, rfl, hz⟩ := hsplit
  obtain rfl := (of_splitOn_singleton hx).1
  obtain rfl := (of_splitOn_singleton hy).1
  obtain rfl := List.append_cancel_right (of_splitOn_singleton hz).1
  exact ⟨hp, hk, hn⟩

/-- Two parts never give one, whatever colons they have. -/
theorem not_ddsForm_two {a n : List UInt8} (ha : ¬ literal "::" <:+: a) (hn : ¬ literal "::" <:+: n) :
    ¬ DdsForm (a ++ literal "::dds_::" ++ n ++ literal "_") := by
  rintro ⟨p, k, m, hp, hk, hm, heq⟩
  have hsplit := congrArg (List.splitOn 0x3a) heq
  rw [splitOn_ddsForm hp.no_colon hk.no_colon hm.no_colon, List.append_assoc _ n, splitOn_dds] at hsplit
  have hjoin : [0x3a].intercalate (a.splitOn 0x3a) = a := List.intercalate_splitOn _
  have hjoin' : [0x3a].intercalate ((n ++ literal "_").splitOn 0x3a) = n ++ literal "_" := List.intercalate_splitOn _
  -- by the number of pieces of `a`
  rcases ha1 : a.splitOn 0x3a with _ | ⟨x, _ | ⟨y, _ | ⟨z, rest⟩⟩⟩
  · exact List.splitOn_ne_nil _ _ ha1
  · rw [ha1] at hsplit
    simp only [List.singleton_append, List.cons.injEq, true_and] at hsplit
    rw [hsplit.2.2] at hjoin'
    apply hn
    refine ⟨literal "dds_", m, ?_⟩
    have hname : literal "dds_" ++ literal "::" ++ m ++ literal "_" = n ++ literal "_" := by
      rw [← hjoin', colons_literal]
      simp [List.intercalate, List.intersperse]
    exact List.append_cancel_right hname
  · rw [ha1] at hsplit
    simp only [List.cons_append, List.nil_append, List.cons.injEq] at hsplit
    exact hk.ne_nil hsplit.2.2.1.symm
  · rw [ha1] at hsplit hjoin
    simp only [List.cons_append, List.cons.injEq] at hsplit
    obtain ⟨-, rfl, -, hrest⟩ := hsplit
    have hnil : rest = [] := by
      have hlen := congrArg List.length hrest
      have hpos := List.length_pos_iff.mpr (List.splitOn_ne_nil (0x3a : UInt8) (n ++ literal "_"))
      simp only [List.length_append, List.length_cons, List.length_nil] at hlen
      apply List.length_eq_zero_iff.mp
      omega
    apply ha
    refine ⟨x, z, ?_⟩
    rw [← hjoin, hnil, colons_literal]
    simp [List.intercalate, List.intersperse]

end Pieces

section Forms

/-- A string without colons has no pair of them. -/
theorem no_colon_pair {t : List UInt8} (h : 0x3a ∉ t) : ¬ literal "::" <:+: t :=
  fun hpair => h (hpair.subset (by decide))

theorem ddsTypeName_of_ddsForm {t : List UInt8} (h : DdsForm t) : ddsTypeName t = .ok t := by
  obtain ⟨p, k, n, -, -, -, rfl⟩ := h
  apply ddsTypeName_of_colons
  exact ⟨p, k ++ literal "::dds_::" ++ n ++ literal "_", by simp only [List.append_assoc]⟩

/-- Three parts without slashes or colons, which may be empty. -/
theorem ddsTypeName_three {p k n : List UInt8} (hp : 0x2f ∉ p ∧ 0x3a ∉ p) (hk : 0x3a ∉ k)
    (hn : 0x2f ∉ n ∧ 0x3a ∉ n) :
    ddsTypeName (p ++ literal "/" ++ k ++ literal "/" ++ n) =
      .ok (p ++ literal "::" ++ k ++ literal "::dds_::" ++ n ++ literal "_") := by
  have ht : p ++ literal "/" ++ k ++ literal "/" ++ n = p ++ 0x2f :: k ++ 0x2f :: n := by
    rw [slash_literal]
    simp only [List.append_assoc, List.singleton_append]
  rw [ht]
  refine ddsTypeName_more_slashes (no_colon_pair ?_) hp.1 hn.1
  simp only [List.mem_append, List.mem_cons, not_or]
  exact ⟨⟨hp.2, by decide, hk⟩, by decide, hn.2⟩

theorem ddsTypeName_of_rosForm {t : List UInt8} (h : RosForm t) : ∃ s, ddsTypeName t = .ok s ∧ DdsForm s := by
  obtain ⟨p, k, n, hp, hk, hn, rfl⟩ := h
  exact ⟨_, ddsTypeName_three ⟨hp.no_slash, hp.no_colon⟩ hk.no_colon ⟨hn.no_slash, hn.no_colon⟩,
    p, k, n, hp, hk, hn, rfl⟩

/-- Every string but the two forms and those without any separator is passed on or rewritten into something
that is no DDS name. -/
theorem form_of_returned {t s : List UInt8} (h : ddsTypeName t = .ok s) (hs : DdsForm s) :
    DdsForm t ∨ RosForm t := by
  rcases type_cases t with hcolons | ⟨hcolons, hslash⟩ | ⟨a, n, hcolons, ha, hn, rfl⟩ | ⟨p, k, n, hcolons, hp, hn, rfl⟩
  · rw [ddsTypeName_of_colons hcolons] at h
    exact .inl (Except.ok.inj h ▸ hs)
  · obtain ⟨e, he⟩ := ddsTypeName_no_slash hcolons hslash
    rw [he] at h
    cases h
  · rw [ddsTypeName_one_slash hcolons ha hn, Except.ok.injEq] at h
    subst h
    have hleft : ¬ literal "::" <:+: a := fun hin => hcolons (hin.trans (List.prefix_append _ _).isInfix)
    have hright : ¬ literal "::" <:+: n :=
      fun hin => hcolons (hin.trans ((List.suffix_cons _ _).trans (List.suffix_append _ _)).isInfix)
    exact absurd hs (not_ddsForm_two hleft hright)
  · rw [ddsTypeName_more_slashes hcolons hp hn, Except.ok.injEq] at h
    subst h
    obtain ⟨hp', hk', hn'⟩ := ddsForm_iff.mp hs
    refine .inr ⟨p, k, n, hp', hk', hn', ?_⟩
    rw [slash_literal]
    simp only [List.append_assoc, List.singleton_append]

end Forms

/-- `dds_type_name` raises or returns a DDS name exactly on the two documented forms and on the strings with
neither a slash nor a pair of colons; a DDS name stays as it is, and the friendly name of a message becomes
the one its generated code has. -/
theorem ddsTypeName_documented_iff (t pkg name : List UInt8) :
    (((∃ e, ddsTypeName t = .error e) ∨ ∃ s, ddsTypeName t = .ok s ∧ DdsForm s) ↔
      DdsForm t ∨ RosForm t ∨ (¬ literal "::" <:+: t ∧ 0x2f ∉ t)) ∧
    (DdsForm t → ddsTypeName t = .ok t) ∧
    ((0x2f ∉ pkg ∧ 0x3a ∉ pkg) → (0x2f ∉ name ∧ 0x3a ∉ name) →
      ddsTypeName (pkg ++ literal "/msg/" ++ name) = .ok (messageDdsName pkg name)) := by
  refine ⟨⟨?_, ?_⟩, ddsTypeName_of_ddsForm, ?_⟩
  · rintro (⟨e, he⟩ | ⟨s, hs, hform⟩)
    · rcases type_cases t with hcolons | hplain | ⟨a, n, hcolons, ha, hn, rfl⟩ | ⟨p, k, n, hcolons, hp, hn, rfl⟩
      · rw [ddsTypeName_of_colons hcolons] at he
        cases he
      · exact .inr (.inr hplain)
      · rw [ddsTypeName_one_slash hcolons ha hn] at he
        cases he
      · rw [ddsTypeName_more_slashes hcolons hp hn] at he
        cases he
    · exact (form_of_returned hs hform).imp_right .inl
  · rintro (hform | hform | ⟨hcolons, hslash⟩)
    · exact .inr ⟨t, ddsTypeName_of_ddsForm hform, hform⟩
    · exact .inr (ddsTypeName_of_rosForm hform)
    · exact .inl (ddsTypeName_no_slash hcolons hslash)
  · intro hpkg hname
    have hmsg : literal "/msg/" = literal "/" ++ literal "msg" ++ literal "/" := by decide
    have hdds : literal "::msg::dds_::" = literal "::" ++ literal "msg" ++ literal "::dds_::" := by decide
    have hthree := ddsTypeName_three hpkg (by decide : 0x3a ∉ literal "msg") hname
    rw [messageDdsName, hmsg, hdds]
    simpa only [List.append_assoc] using hthree

theorem ddsTypeName_documented_iff_string :
    ddsTypeName (literal "std_msgs::msg::dds_::String_") = .ok (literal "std_msgs::msg::dds_::String_") ∧
      ddsTypeName (literal "std_msgs/msg/String") = .ok (literal "std_msgs::msg::dds_::String_") := by
  obtain ⟨-, hdds, hmsg⟩ :=
    ddsTypeName_documented_iff (literal "std_msgs::msg::dds_::String_") (literal "std_msgs") (literal "String")
  refine ⟨hdds ⟨literal "std_msgs", literal "msg", literal "String", ?_, ?_, ?_, by decide⟩, ?_⟩
  · exact ⟨by decide, by decide, by decide⟩
  · exact ⟨by decide, by decide, by decide⟩
  · exact ⟨by decide, by decide, by decide⟩
  · exact hmsg (by decide) (by decide)

/-- One slash too few, one too many, and anything with a pair of colons: accepted, and no DDS name. -/
theorem ddsTypeName_off_form :
    (ddsTypeName (literal "std_msgs/String") = .ok (literal "std_msgs::dds_::String_") ∧
      ¬ DdsForm (literal "std_msgs::dds_::String_")) ∧
    (ddsTypeName (literal "a/b/c/D") = .ok (literal "a::b/c::dds_::D_") ∧ ¬ DdsForm (literal "a::b/c::dds_::D_")) ∧
    (ddsTypeName (literal "::") = .ok (literal "::") ∧ ¬ DdsForm (literal "::")) := by
  refine ⟨⟨by decide, ?_⟩, ⟨by decide, ?_⟩, by decide, ?_⟩
  · have htwo : literal "std_msgs::dds_::String_" =
        literal "std_msgs" ++ literal "::dds_::" ++ literal "String" ++ literal "_" := by decide
    rw [htwo]
    exact not_ddsForm_two (by decide) (by decide)
  · have hthree : literal "a::b/c::dds_::D_" =
        literal "a" ++ literal "::" ++ literal "b/c" ++ literal "::dds_::" ++ literal "D" ++ literal "_" := by decide
    rw [hthree]
    intro hform
    exact (ddsForm_iff.mp hform).2.1.no_slash (by decide)
  · rintro ⟨p, k, n, hp, hk, -, heq⟩
    have hlen := congrArg List.length heq
    have hmark : (literal "::dds_::").length = 8 := by decide
    have hcolons : (literal "::").length = 2 := by decide
    simp only [List.length_append, hmark, hcolons] at hlen
    omega

end Rcllite
