import Docmark.Proofs.BaseNames
import Docmark.Proofs.Keywords

namespace Docmark

theorem Context.isSinglePage_of_perAssembly {ctx : Context}
    (h : ctx.options.layout = .perAssembly) : ctx.isSinglePage = false := by
  rw [isSinglePage, h]
  rfl

namespace MemberId

variable {id : MemberId}

theorem name_eq_of_declaringType (h : id.declaringType ≠ []) :
    id.name = id.declaringType ++ "." ++ id.memberName := by
  apply name_eq_of_mem
  rw [declaringType] at h
  cases hcut : Text.cutLast? '.' id.name with
  | none =>
    rw [hcut] at h
    exact absurd rfl h
  | some cut =>
    rw [(Text.eq_of_cutLast? hcut).1]
    exact List.mem_append_right _ List.mem_cons_self

end MemberId

namespace Link

def pageOf (assembly : Text) : Text :=
  "../" ++ (assembly ++ "/#")

theorem pageOf_prefix_iff {own assembly : Text} (ho : '/' ∉ own) (ha : '/' ∉ assembly)
    (anchor : Text) : pageOf own <+: pageOf assembly ++ anchor ↔ own = assembly := by
  constructor
  · rintro ⟨rest, h⟩
    have hpages : own ++ '/' :: ('#' :: rest) = assembly ++ '/' :: ('#' :: anchor) := by
      simpa [pageOf] using h
    have hcut := congrArg (Text.cutFirst? '/') hpages
    rw [Text.cutFirst?_append ho, Text.cutFirst?_append ha, Option.some.injEq, Prod.mk.injEq] at hcut
    exact hcut.1
  · rintro rfl
    exact List.prefix_append _ _

variable {ctx : Context} {id : MemberId}

theorem ofCref_type {cref : Text} (hlayout : ctx.options.layout = .perAssembly)
    (hid : MemberId.parse? cref = some id) (hk : id.kind = .type) : ofCref ctx cref =
      ⟨stripArity id.memberName, pageOf (assemblyOf ctx id) ++
        nameAnchor (stripNamespace ctx.assembly (stripArity id.name))⟩ := by
  simp [ofCref_of_parse? hid, displayOf, targetOf, anchorOf, hk, pageOf,
    Context.isSinglePage_of_perAssembly hlayout]

theorem assemblyOf_inside (h : ctx.assembly <:+: id.name) : assemblyOf ctx id = ctx.assembly := by
  simp [assemblyOf, Text.holds_iff.2 h]

theorem assemblyOf_outside (hk : id.kind = .type) (hassembly : ctx.assembly ≠ [])
    (hown : id.declaringType ≠ []) (h : ¬ ctx.assembly <:+: id.name) :
    assemblyOf ctx id = id.declaringType := by
  have hnot : Text.holds ctx.assembly id.name = false :=
    Bool.eq_false_of_not_eq_true (mt Text.holds_iff.1 h)
  simp [assemblyOf, hk, hnot, hassembly, hown]

/-- A link to a type leads to the page of its own namespace when the name of the assembly stands nowhere
in the name of the type. A name that holds it elsewhere than in front keeps the link on the page of the
assembly. -/
theorem type_links_reach_own_page_iff {cref : Text} (hlayout : ctx.options.layout = .perAssembly)
    (hassembly : ctx.assembly ≠ []) (hid : MemberId.parse? cref = some id) (hk : id.kind = .type) :
    let target := (ofCref ctx cref).target
    let own := id.declaringType
    let anchor := nameAnchor (stripNamespace ctx.assembly (stripArity id.name))
    (own ≠ [] → (pageOf own <+: target ↔
      ¬ ctx.assembly <:+: id.name ∨ pageOf own <+: pageOf ctx.assembly ++ anchor)) ∧
    (own ≠ [] → ¬ ctx.assembly ++ ['.'] <+: id.name → '/' ∉ own → '/' ∉ ctx.assembly →
      (pageOf own <+: target ↔ ¬ ctx.assembly <:+: id.name)) ∧
    (ctx.assembly ++ ['.'] <+: id.name → pageOf ctx.assembly <+: target) := by
  intro target own anchor
  have htarget : target = pageOf (assemblyOf ctx id) ++ anchor :=
    congrArg Link.target (ofCref_type hlayout hid hk)
  have hiff (hown : own ≠ []) : pageOf own <+: target ↔
      ¬ ctx.assembly <:+: id.name ∨ pageOf own <+: pageOf ctx.assembly ++ anchor := by
    rw [htarget]
    by_cases hin : ctx.assembly <:+: id.name
    · rw [assemblyOf_inside hin]
      simp [hin]
    · rw [assemblyOf_outside hk hassembly hown hin]
      exact iff_of_true (List.prefix_append _ _) (.inl hin)
  refine ⟨hiff, ?_, ?_⟩
  · intro hown hfront ho ha
    have hne : own ≠ ctx.assembly := by
      intro heq
      apply hfront
      rw [MemberId.name_eq_of_declaringType hown, ← heq]
      exact List.prefix_append _ _
    rw [hiff hown, pageOf_prefix_iff ho ha]
    simp [hne]
  · intro hfront
    have hin : ctx.assembly <:+: id.name :=
      ((List.prefix_append _ _).trans hfront).isInfix
    rw [htarget, assemblyOf_inside hin]
    exact List.prefix_append _ _

theorem type_links_reach_own_page_iff_library :
    let ctx : Context := ⟨"Lib", ⟨.error, .perAssembly⟩, .unknown, [], none⟩
    let thing : MemberId := ⟨.type, "Other.Lib.Thing", none, "T:Other.Lib.Thing"⟩
    let tool : MemberId := ⟨.type, "Other.Tool", none, "T:Other.Tool"⟩
    let own : MemberId := ⟨.type, "Lib.Item", none, "T:Lib.Item"⟩
    MemberId.parse? thing.raw = some thing ∧ thing.declaringType = "Other.Lib" ∧
      ¬ pageOf "Other.Lib" <+: (ofCref ctx thing.raw).target ∧
    MemberId.parse? tool.raw = some tool ∧ tool.declaringType = "Other" ∧
      pageOf "Other" <+: (ofCref ctx tool.raw).target ∧
    MemberId.parse? own.raw = some own ∧ pageOf "Lib" <+: (ofCref ctx own.raw).target := by
  intro ctx thing tool own
  have hlayout : ctx.options.layout = .perAssembly := rfl
  have hassembly : ctx.assembly ≠ [] := by decide
  have hthing : MemberId.parse? thing.raw = some thing := by decide
  have htool : MemberId.parse? tool.raw = some tool := by decide
  have hown : MemberId.parse? own.raw = some own := by decide
  obtain ⟨-, hpage, -⟩ := type_links_reach_own_page_iff hlayout hassembly hthing rfl
  obtain ⟨-, hpage', -⟩ := type_links_reach_own_page_iff hlayout hassembly htool rfl
  obtain ⟨-, -, hfront⟩ := type_links_reach_own_page_iff hlayout hassembly hown rfl
  refine ⟨hthing, by decide, ?_, htool, by decide, ?_, hown, hfront (by decide)⟩
  · intro hlead
    have hin : ctx.assembly <:+: thing.name := Text.holds_iff.1 (by decide)
    exact (hpage (by decide) (by decide) (by decide) (by decide)).1 hlead hin
  · have hout : ¬ ctx.assembly <:+: tool.name := mt Text.holds_iff.2 (by decide)
    exact (hpage' (by decide) (by decide) (by decide) (by decide)).2 hout

end Link

namespace TypeDescriptor

variable {d : TypeDescriptor}

theorem afterLast_fullName (hd : '.' ∉ d.simpleName) :
    Text.afterLast '.' d.fullName = d.simpleName := by
  rw [fullName]
  split
  · exact Text.afterLast_of_not_mem hd
  · rw [List.append_assoc]
    exact (Text.afterLast_behind '.' _ _).trans (Text.afterLast_of_not_mem hd)

theorem not_mem_fullName {c : Char} (hdot : c ≠ '.') (hnamespace : c ∉ d.namespaceName)
    (hname : c ∉ d.simpleName) : c ∉ d.fullName := by
  rw [fullName]
  split
  · exact hname
  · simp [hnamespace, hdot, hname]

theorem parse?_fullName (hne : d.simpleName ≠ []) (ho : '(' ∉ d.fullName) (hc : ')' ∉ d.fullName) :
    MemberId.parse? ("T:" ++ d.fullName) =
      some ⟨.type, d.fullName, none, "T:" ++ d.fullName⟩ := by
  have hfull : d.fullName ≠ [] := by
    rw [fullName]
    split
    · exact hne
    · simp
  have hwell : MemberId.Spelling.WellFormed .type ⟨'T', d.fullName, none⟩ := .bare (.inl rfl) hfull ho hc
  have hparse := hwell.parse?
  rwa [MemberId.Spelling.text, MemberId.Spelling.behind, List.append_nil] at hparse

theorem cell_of_plain {ctx : Context} (hlayout : ctx.options.layout = .perAssembly)
    (hg : d.arguments = []) (ha : d.isArray = false) (hkeyword : d.keyword? = none) :
    d.cell ctx = "[" ++ d.simpleName ++ "](" ++ (Link.pageOf (d.assembly.getD ctx.assembly) ++
      nameAnchor (stripNamespace (d.assembly.getD ctx.assembly) d.fullName)) ++ ")" := by
  have hplain : d.isGeneric = false := by
    rw [isGeneric, hg]
    rfl
  rw [cell, hkeyword]
  simp [hplain, target, Context.isSinglePage_of_perAssembly hlayout, brackets, ha, Link.pageOf]

theorem cells_agree_with_references {ctx : Context} (hlayout : ctx.options.layout = .perAssembly)
    (hg : d.arguments = []) (ha : d.isArray = false) (hkeyword : d.keyword? = none)
    (hne : d.name ≠ []) (hname : ∀ c ∈ ['.', '\x60', '(', ')'], c ∉ d.name)
    (hnamespace : ∀ c ∈ ['\x60', '(', ')'], c ∉ d.namespaceName)
    (hassembly : ∀ assembly ∈ d.assembly, assembly = ctx.assembly)
    (hin : ctx.assembly <:+: d.fullName) :
    let link := Link.ofCref ctx ("T:" ++ d.fullName)
    d.cell ctx = "[" ++ link.display ++ "](" ++ link.target ++ ")" := by
  intro link
  have hsimple : d.simpleName = d.name := simpleName_of_plain ha (hname _ (by decide))
  have hdot : '.' ∉ d.simpleName := hsimple ▸ hname _ (by decide)
  have hplain : ∀ c ∈ ['\x60', '(', ')'], c ∉ d.fullName := by
    intro c hc
    have hout : c ≠ '.' ∧ c ∈ ['.', '\x60', '(', ')'] := by
      simp only [List.mem_cons, List.not_mem_nil, or_false] at hc
      rcases hc with rfl | rfl | rfl <;> decide
    exact not_mem_fullName hout.1 (hnamespace c hc) (hsimple ▸ hname c hout.2)
  have hid := parse?_fullName (hsimple ▸ hne) (hplain _ (by decide)) (hplain _ (by decide))
  have hmarker : stripArity d.fullName = d.fullName := stripArity_of_not_mem (hplain _ (by decide))
  have hshown : stripArity d.simpleName = d.simpleName :=
    stripArity_of_not_mem (hsimple ▸ hname _ (by decide))
  have hown : d.assembly.getD ctx.assembly = ctx.assembly := by
    cases hd : d.assembly with
    | none => rfl
    | some assembly => exact hassembly assembly hd
  have hlink : link = ⟨d.simpleName, Link.pageOf ctx.assembly ++
      nameAnchor (stripNamespace ctx.assembly d.fullName)⟩ := by
    rw [show link = _ from Link.ofCref_type hlayout hid rfl, Link.assemblyOf_inside hin,
      MemberId.memberName]
    dsimp only
    rw [afterLast_fullName hdot, hshown, hmarker]
  rw [cell_of_plain hlayout hg ha hkeyword, hown, hlink]

theorem cells_agree_with_references_item :
    let ctx : Context := ⟨"Foo", ⟨.error, .perAssembly⟩, .unknown, [], none⟩
    let d : TypeDescriptor := ⟨"Item", "Foo.Models", some "Foo", []⟩
    let link := Link.ofCref ctx "T:Foo.Models.Item"
    d.arguments = [] ∧ d.isArray = false ∧ d.keyword? = none ∧ d.name ≠ [] ∧
      (∀ c ∈ ['.', '\x60', '(', ')'], c ∉ d.name) ∧ (∀ c ∈ ['\x60', '(', ')'], c ∉ d.namespaceName) ∧
      (∀ assembly ∈ d.assembly, assembly = ctx.assembly) ∧ ctx.assembly <:+: d.fullName ∧
      link = ⟨"Item", "../Foo/#modelsitem"⟩ ∧ d.cell ctx = "[Item](../Foo/#modelsitem)" := by
  intro ctx d link
  have hname : ∀ c ∈ ['.', '\x60', '(', ')'], c ∉ d.name :=
    Text.forall_mem_of_all (by decide)
  have hnamespace : ∀ c ∈ ['\x60', '(', ')'], c ∉ d.namespaceName :=
    Text.forall_mem_of_all (by decide)
  have hassembly : ∀ assembly ∈ d.assembly, assembly = ctx.assembly := by
    rintro assembly ⟨⟩
    rfl
  have hin : ctx.assembly <:+: d.fullName := by decide
  have hlayout : ctx.options.layout = .perAssembly := rfl
  have hkeyword : d.keyword? = none := rfl
  have harray : d.isArray = false := rfl
  have hcell := cells_agree_with_references hlayout rfl harray hkeyword (by decide) hname hnamespace
    hassembly hin
  have hlink : link = ⟨"Item", "../Foo/#modelsitem"⟩ := by decide
  refine ⟨rfl, rfl, rfl, by decide, hname, hnamespace, hassembly, hin, hlink, ?_⟩
  rw [hcell, show Link.ofCref ctx ("T:" ++ d.fullName) = link from rfl, hlink]
  rfl

end TypeDescriptor
end Docmark
