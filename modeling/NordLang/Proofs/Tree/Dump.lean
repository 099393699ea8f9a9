import NordLang.Proofs.Command.Verbosity
import NordLang.Proofs.Json.Rendering
import NordLang.Proofs.Layout.Source

/-!
# Trees can be read back from their dumps

The dump of a tree of a source text has everything of the tree in it: the kind and the place of every
node, and what is there and what is missing.  So two such trees with the same dump are the same tree,
and two programs whose dumps have the same text have the same tree.

* `told_of_wellFormed` says so for the dumps as data.
* `dumps_equal_iff` says so for the texts that the command gives.
-/

namespace NordLang

theorem Operator.name_injective {op op' : Operator} (h : op.name = op'.name) : op = op' := by
  have hread (op : Operator) : ofName? op.name = some op := by cases op <;> rfl
  have hsome := congrArg ofName? h
  rw [hread, hread] at hsome
  exact Option.some.inj hsome

namespace Tree

open Json (Plain)

attribute [local simp] dump dumpAll dumpFields

/-! ## Dumps hold no decimals -/

theorem plain_of_isName {name : Scalar} (h : name.isName = true) : Plain (.scalar name) := by
  cases name with
  | text s => exact .text s
  | _ => cases h

theorem plain_dumpNode {kind : String} {loc : Location} {parts : List (String × Json)}
    (h : ∀ part ∈ parts, Plain part.2) : Plain (dumpNode kind loc parts) := by
  apply Plain.object
  intro member hmember
  simp only [List.mem_cons] at hmember
  rcases hmember with rfl | rfl | rfl | hpart
  · exact .text kind
  · exact .int _
  · exact .int _
  · exact h member hpart

theorem plain_dumpAll {ts : List Tree} (h : ∀ t ∈ ts, Plain t.dump) :
    Plain (.array (dumpAll ts)) := by
  apply Plain.array
  induction ts with
  | nil => simp
  | cons t ts ih =>
    rw [dumpAll]
    exact List.forall_mem_cons.2 ⟨h t (by simp), ih fun u hu => h u (by simp [hu])⟩

theorem plain_dumpFields {fields : List (Scalar × Tree)} (hnames : ∀ f ∈ fields, f.1.isName = true)
    (h : ∀ f ∈ fields, Plain f.2.dump) : Plain (.array (dumpFields fields)) := by
  apply Plain.array
  induction fields with
  | nil => simp
  | cons f fields ih =>
    rw [dumpFields]
    refine List.forall_mem_cons.2 ⟨.array ?_, ?_⟩
    · simp [plain_of_isName (hnames f (by simp)), h f (by simp)]
    · exact ih (fun g hg => hnames g (by simp [hg])) fun g hg => h g (by simp [hg])

theorem plain_atom {kind name : String} {value : Scalar} (h : Plain (.scalar value)) :
    Plain (.object [("kind", dumpText kind), (name, .scalar value)]) := by
  apply Plain.object
  simp [dumpText, h, Plain.text]

theorem plain_dump {t : Tree} (h : t.WellFormed) : Plain t.dump := by
  induction h with
  | num hn =>
    rw [dump, dump]
    exact plain_dumpNode (by simp [plain_atom, Plain.int])
  | boolean =>
    rw [dump, dump]
    exact plain_dumpNode (by simp [plain_atom, Plain.bool])
  | string =>
    rw [dump, dump]
    exact plain_dumpNode (by simp [plain_atom, Plain.text])
  | identifier hname =>
    rw [dump, dump]
    exact plain_dumpNode (by simp [plain_atom, plain_of_isName hname])
  | ifThen hcond hbody ih ihbody =>
    have hblock := plain_dumpAll ihbody
    rw [dump, dump, dump]
    exact plain_dumpNode (by simp [ih, plain_dumpNode, hblock, Plain.null])
  | ifThenElse hcond hbody hother ih ihbody ihother =>
    have hblock := plain_dumpAll ihbody
    have hblock' := plain_dumpAll ihother
    rw [dump, dump, dump]
    exact plain_dumpNode (by simp [ih, plain_dumpNode, hblock, hblock'])
  | letBind hname hvalue ih =>
    rw [dump]
    exact plain_dumpNode (by simp [plain_of_isName hname, ih])
  | array helements ih =>
    rw [dump]
    exact plain_dumpNode (by simp [plain_dumpAll ih])
  | object hnames hvalues ih =>
    rw [dump]
    exact plain_dumpNode (by simp [plain_dumpFields hnames ih])
  | lambdaEmpty hbody ih =>
    rw [dump]
    exact plain_dumpNode (by simp [Plain.null, ih])
  | lambda hparam hbody ih =>
    rw [dump]
    exact plain_dumpNode (by simp [plain_of_isName hparam, ih])
  | block hbody ih =>
    rw [dump]
    exact plain_dumpNode (by simp [plain_dumpAll ih])
  | binary hop hleft hright ihleft ihright =>
    rw [dump]
    exact plain_dumpNode (by simp [ihleft, ihright, dumpOperator, dumpText, Plain.text])
  | unary hop hoperand ih =>
    rw [dump]
    exact plain_dumpNode (by simp [ih, dumpOperator, dumpText, Plain.text])
  | callEmpty hcallee ih =>
    rw [dump, dump]
    exact plain_dumpNode (by simp [ih, Plain.null])
  | call hcallee harg ihcallee iharg =>
    rw [dump]
    exact plain_dumpNode (by simp [ihcallee, iharg])
  | index hcallee hkey ihcallee ihkey =>
    rw [dump]
    exact plain_dumpNode (by simp [ihcallee, ihkey])
  | member hcallee hfield ih =>
    rw [dump]
    exact plain_dumpNode (by simp [ih, plain_of_isName hfield])

/-! ## Telling trees by their dumps -/

theorem dumpNode_inj {kind kind' : String} {loc loc' : Location}
    {parts parts' : List (String × Json)} :
    dumpNode kind loc parts = dumpNode kind' loc' parts' ↔
      kind = kind' ∧ loc = loc' ∧ parts = parts' := by
  cases loc
  cases loc'
  simp [dumpNode, dumpText, and_assoc]

/-- The kind that a dump names. -/
def kindDumped? : Json → Option String
  | .object ((_, .scalar (.text kind)) :: _) => some kind
  | _ => none

theorem kindDumped?_dump {t : Tree} (h : t.WellFormed) : kindDumped? t.dump = some t.kindName := by
  cases h <;> rw [dump] <;> rfl

/-- A tree of a source text, or no tree where one is optional. -/
def Optional (t : Tree) : Prop :=
  t = missing ∨ t.WellFormed

/-- The tree can be told from all others by its dump. -/
def Told (t : Tree) : Prop :=
  ∀ u, u.Optional → t.dump = u.dump → t = u

theorem told_missing : Told missing := by
  intro u hu h
  rcases hu with rfl | hu
  · rfl
  · have hkind := kindDumped?_dump hu
    rw [← h] at hkind
    cases hkind

/-- It is enough to tell a tree from those of its own kind. -/
theorem told_of_kind {t : Tree} (ht : t.WellFormed)
    (h : ∀ u, u.WellFormed → u.kindName = t.kindName → t.dump = u.dump → t = u) : t.Told := by
  intro u hu hdump
  have hkind := kindDumped?_dump ht
  rcases hu with rfl | hu
  · rw [hdump] at hkind
    cases hkind
  · rw [hdump, kindDumped?_dump hu] at hkind
    exact h u hu (Option.some.inj hkind) hdump

theorem dumpAll_inj {ts us : List Tree} (hts : ∀ t ∈ ts, t.Told) (hus : ∀ u ∈ us, u.WellFormed)
    (h : dumpAll ts = dumpAll us) : ts = us := by
  induction ts generalizing us with
  | nil =>
    cases us with
    | nil => rfl
    | cons u us => cases h
  | cons t ts ih =>
    cases us with
    | nil => cases h
    | cons u us =>
      rw [dumpAll, dumpAll] at h
      obtain ⟨hfirst, hrest⟩ := List.cons.inj h
      rw [hts t (by simp) u (.inr (hus u (by simp))) hfirst,
        ih (fun x hx => hts x (by simp [hx])) (fun x hx => hus x (by simp [hx])) hrest]

theorem dumpFields_inj {fields fields' : List (Scalar × Tree)} (hfields : ∀ f ∈ fields, f.2.Told)
    (hfields' : ∀ f ∈ fields', f.2.WellFormed) (h : dumpFields fields = dumpFields fields') :
    fields = fields' := by
  induction fields generalizing fields' with
  | nil =>
    cases fields' with
    | nil => rfl
    | cons f' fields' => cases h
  | cons f fields ih =>
    cases fields' with
    | nil => cases h
    | cons f' fields' =>
      rw [dumpFields, dumpFields] at h
      obtain ⟨hfirst, hrest⟩ := List.cons.inj h
      simp only [Json.array.injEq, List.cons.injEq, Json.scalar.injEq, and_true] at hfirst
      have hvalue := hfields f (by simp) f'.2 (.inr (hfields' f' (by simp))) hfirst.2
      rw [Prod.ext hfirst.1 hvalue,
        ih (fun x hx => hfields x (by simp [hx])) (fun x hx => hfields' x (by simp [hx])) hrest]

section forms

variable {loc : Location}

theorem atom_eq_of_dump {loc' : Location} {a a' : Tree} (h : (constant loc a).WellFormed)
    (h' : (constant loc' a').WellFormed) (hdump : a.dump = a'.dump) : a = a' := by
  cases h <;> cases h' <;> simp_all [dumpText]

theorem told_constant {atom : Tree} (h : (constant loc atom).WellFormed) :
    (constant loc atom).Told := by
  refine told_of_kind h fun u hu hkind hdump => ?_
  obtain ⟨loc', atom', rfl⟩ : ∃ loc' atom', u = constant loc' atom' := by
    cases hu with
    | num | boolean | string | identifier => exact ⟨_, _, rfl⟩
    | _ => simp [kindName] at hkind
  rw [dump, dump, dumpNode_inj] at hdump
  simp only [List.cons.injEq, Prod.mk.injEq, true_and, and_true] at hdump
  rw [hdump.1, atom_eq_of_dump h hu hdump.2]

theorem told_block {body : List Tree} (hbody : ∀ t ∈ body, t.WellFormed)
    (ih : ∀ t ∈ body, t.Told) : (block loc body).Told := by
  refine told_of_kind (.block hbody) fun u hu hkind hdump => ?_
  cases hu with
  | block hbody' =>
    rw [dump, dump, dumpNode_inj] at hdump
    simp only [List.cons.injEq, Prod.mk.injEq, Json.array.injEq, true_and, and_true] at hdump
    rw [hdump.1, dumpAll_inj ih hbody' hdump.2]
  | _ => simp [kindName] at hkind

/-- An absent alternative and an empty one have different dumps. -/
theorem told_ifElse {cond thenBranch elseBranch : Tree}
    (h : (ifElse loc cond thenBranch elseBranch).WellFormed) (hcond : cond.Told)
    (hthen : thenBranch.Told) (helse : elseBranch.Told) :
    (ifElse loc cond thenBranch elseBranch).Told := by
  refine told_of_kind h fun u hu hkind hdump => ?_
  obtain ⟨loc', cond', then', else', rfl, hcond', hthen', helse'⟩ :
      ∃ loc' cond' then' else', u = ifElse loc' cond' then' else' ∧ cond'.Optional ∧
        then'.Optional ∧ else'.Optional := by
    cases hu with
    | ifThen hcond' hbody' =>
      exact ⟨_, _, _, _, rfl, .inr hcond', .inr (.block hbody'), .inl rfl⟩
    | ifThenElse hcond' hbody' hother' =>
      exact ⟨_, _, _, _, rfl, .inr hcond', .inr (.block hbody'), .inr (.block hother')⟩
    | _ => simp [kindName] at hkind
  rw [dump, dump, dumpNode_inj] at hdump
  simp only [List.cons.injEq, Prod.mk.injEq, true_and, and_true] at hdump
  obtain ⟨rfl, hdcond, hdthen, hdelse⟩ := hdump
  rw [hcond _ hcond' hdcond, hthen _ hthen' hdthen, helse _ helse' hdelse]

theorem told_lambda {param : Scalar} {body : Tree} (h : (lambda loc param body).WellFormed)
    (hbody : body.Told) : (lambda loc param body).Told := by
  refine told_of_kind h fun u hu hkind hdump => ?_
  obtain ⟨loc', param', body', rfl, hbody'⟩ :
      ∃ loc' param' body', u = lambda loc' param' body' ∧ body'.WellFormed := by
    cases hu with
    | lambdaEmpty hbody' => exact ⟨_, _, _, rfl, hbody'⟩
    | lambda _ hbody' => exact ⟨_, _, _, rfl, hbody'⟩
    | _ => simp [kindName] at hkind
  rw [dump, dump, dumpNode_inj] at hdump
  simp only [List.cons.injEq, Prod.mk.injEq, Json.scalar.injEq, true_and, and_true] at hdump
  obtain ⟨rfl, rfl, hdbody⟩ := hdump
  rw [hbody _ (.inr hbody') hdbody]

theorem told_call {callee arg : Tree} (h : (call loc callee arg).WellFormed) (hcallee : callee.Told)
    (harg : arg.Told) : (call loc callee arg).Told := by
  refine told_of_kind h fun u hu hkind hdump => ?_
  obtain ⟨loc', callee', arg', rfl, hcallee', harg'⟩ :
      ∃ loc' callee' arg', u = call loc' callee' arg' ∧ callee'.WellFormed ∧ arg'.Optional := by
    cases hu with
    | callEmpty hcallee' => exact ⟨_, _, _, rfl, hcallee', .inl rfl⟩
    | call hcallee' harg' => exact ⟨_, _, _, rfl, hcallee', .inr harg'⟩
    | _ => simp [kindName] at hkind
  rw [dump, dump, dumpNode_inj] at hdump
  simp only [List.cons.injEq, Prod.mk.injEq, true_and, and_true] at hdump
  obtain ⟨rfl, hdcallee, hdarg⟩ := hdump
  rw [hcallee _ (.inr hcallee') hdcallee, harg _ harg' hdarg]

end forms

/-- The trees of source texts can be told by their dumps. -/
theorem told_of_wellFormed {t : Tree} (ht : t.WellFormed) : t.Told := by
  induction ht with
  | num hn => exact told_constant (.num hn)
  | boolean => exact told_constant .boolean
  | string => exact told_constant .string
  | identifier hname => exact told_constant (.identifier hname)
  | ifThen hcond hbody ihcond ihbody =>
    exact told_ifElse (.ifThen hcond hbody) ihcond (told_block hbody ihbody) told_missing
  | ifThenElse hcond hbody hother ihcond ihbody ihother =>
    exact told_ifElse (.ifThenElse hcond hbody hother) ihcond (told_block hbody ihbody)
      (told_block hother ihother)
  | letBind hname hvalue ih =>
    refine told_of_kind (.letBind hname hvalue) fun u hu hkind hdump => ?_
    cases hu with
    | letBind _ hvalue' =>
      rw [dump, dump, dumpNode_inj] at hdump
      simp only [List.cons.injEq, Prod.mk.injEq, Json.scalar.injEq, true_and, and_true] at hdump
      obtain ⟨rfl, rfl, hdvalue⟩ := hdump
      rw [ih _ (.inr hvalue') hdvalue]
    | _ => simp [kindName] at hkind
  | array helements ih =>
    refine told_of_kind (.array helements) fun u hu hkind hdump => ?_
    cases hu with
    | array helements' =>
      rw [dump, dump, dumpNode_inj] at hdump
      simp only [List.cons.injEq, Prod.mk.injEq, Json.array.injEq, true_and, and_true] at hdump
      rw [hdump.1, dumpAll_inj ih helements' hdump.2]
    | _ => simp [kindName] at hkind
  | object hnames hvalues ih =>
    refine told_of_kind (.object hnames hvalues) fun u hu hkind hdump => ?_
    cases hu with
    | object _ hvalues' =>
      rw [dump, dump, dumpNode_inj] at hdump
      simp only [List.cons.injEq, Prod.mk.injEq, Json.array.injEq, true_and, and_true] at hdump
      rw [hdump.1, dumpFields_inj ih hvalues' hdump.2]
    | _ => simp [kindName] at hkind
  | lambdaEmpty hbody ih => exact told_lambda (.lambdaEmpty hbody) ih
  | lambda hparam hbody ih => exact told_lambda (.lambda hparam hbody) ih
  | block hbody ih => exact told_block hbody ih
  | binary hop hleft hright ihleft ihright =>
    refine told_of_kind (.binary hop hleft hright) fun u hu hkind hdump => ?_
    cases hu with
    | binary _ hleft' hright' =>
      rw [dump, dump, dumpNode_inj] at hdump
      simp only [List.cons.injEq, Prod.mk.injEq, dumpOperator, dumpText, Json.scalar.injEq,
        Scalar.text.injEq, true_and, and_true] at hdump
      obtain ⟨rfl, hdleft, hop', hdright⟩ := hdump
      rw [ihleft _ (.inr hleft') hdleft, Operator.name_injective hop',
        ihright _ (.inr hright') hdright]
    | _ => simp [kindName] at hkind
  | unary hop hoperand ih =>
    refine told_of_kind (.unary hop hoperand) fun u hu hkind hdump => ?_
    cases hu with
    | unary _ hoperand' =>
      rw [dump, dump, dumpNode_inj] at hdump
      simp only [List.cons.injEq, Prod.mk.injEq, dumpOperator, dumpText, Json.scalar.injEq,
        Scalar.text.injEq, true_and, and_true] at hdump
      obtain ⟨rfl, hop', hdoperand⟩ := hdump
      rw [Operator.name_injective hop', ih _ (.inr hoperand') hdoperand]
    | _ => simp [kindName] at hkind
  | callEmpty hcallee ih => exact told_call (.callEmpty hcallee) ih told_missing
  | call hcallee harg ihcallee iharg => exact told_call (.call hcallee harg) ihcallee iharg
  | index hcallee hkey ihcallee ihkey =>
    refine told_of_kind (.index hcallee hkey) fun u hu hkind hdump => ?_
    cases hu with
    | index hcallee' hkey' =>
      rw [dump, dump, dumpNode_inj] at hdump
      simp only [List.cons.injEq, Prod.mk.injEq, true_and, and_true] at hdump
      obtain ⟨rfl, hdcallee, hdkey⟩ := hdump
      rw [ihcallee _ (.inr hcallee') hdcallee, ihkey _ (.inr hkey') hdkey]
    | _ => simp [kindName] at hkind
  | member hcallee hfield ih =>
    refine told_of_kind (.member hcallee hfield) fun u hu hkind hdump => ?_
    cases hu with
    | member hcallee' _ =>
      rw [dump, dump, dumpNode_inj] at hdump
      simp only [List.cons.injEq, Prod.mk.injEq, Json.scalar.injEq, true_and, and_true] at hdump
      obtain ⟨rfl, hdcallee, rfl⟩ := hdump
      rw [ih _ (.inr hcallee') hdcallee]
    | _ => simp [kindName] at hkind

/-- Two trees of source texts are the same if the texts of their dumps are. -/
theorem eq_of_render_dump {pad : Option String} {t u : Tree} (ht : t.WellFormed)
    (hu : u.WellFormed) (h : t.dump.render pad = u.dump.render pad) : t = u :=
  told_of_wellFormed ht u (.inr hu) (Json.render_injective (plain_dump ht) (plain_dump hu) h)

end Tree

namespace Command

/-- Dumps can be indented by anything but a decimal and a number that is no index. -/
theorem indentation_of_scalar {indent : Scalar} (h : ∀ m p, indent ≠ .decimal m p)
    (hindex : ∀ n, indent = .int n → Setting.isIndex n = true) :
    ∃ pad, (Setting.scalar indent).indentation = .ok pad := by
  cases indent with
  | decimal m p => exact absurd rfl (h m p)
  | int n => exact ⟨_, if_pos (hindex n rfl)⟩
  | _ => exact ⟨_, rfl⟩

theorem dump_of_indentation {config indent : Setting} {pad : Option String}
    (hindent : setting config "cli" "json_indent" = .ok indent)
    (hpad : indent.indentation = .ok pad) (t : Tree) :
    dump config t = .ok (t.dump.render pad) := by
  simp only [dump, hindent, ok_bind, hpad]
  rfl

theorem dump_of_hugeIndent {config : Setting} {n : Int}
    (hindent : setting config "cli" "json_indent" = .ok (.scalar (.int n)))
    (hn : Setting.isIndex n = false) (t : Tree) :
    dump config t = .error (.setting .hugeIndent) := by
  simp only [dump, hindent, ok_bind, Setting.indentation, hn, Bool.false_eq_true, if_false]
  rfl

/-- The dumps of two programs are equal texts just if the programs have the same tree.  There are
dumps unless they were to be indented by a number that is no index. -/
theorem dumps_equal_iff {config silent : Setting} {indent : Scalar} {source source' : List Char}
    {tree tree' : Tree} (label label' : String)
    (hsilent : setting config "cli" "silent" = .ok silent)
    (hindent : setting config "cli" "json_indent" = .ok (.scalar indent))
    (hdecimal : ∀ m p, indent ≠ .decimal m p) (hparse : parseText source = .ok tree)
    (hparse' : parseText source' = .ok tree') :
    let outcome := (run "parse" source label config).outcome
    let outcome' := (run "parse" source' label' config).outcome
    ((∀ n, indent = .int n → Setting.isIndex n = true) →
      ∃ text text', outcome = .ok text ∧ outcome' = .ok text' ∧ (text = text' ↔ tree = tree')) ∧
    ∀ n, indent = .int n → Setting.isIndex n = false →
      outcome = .error (.setting .hugeIndent) ∧ outcome' = .error (.setting .hugeIndent) := by
  intro outcome outcome'
  have houtcome : outcome = dump config tree := outcome_run_of_parse hsilent (by decide) hparse
  have houtcome' : outcome' = dump config tree' := outcome_run_of_parse hsilent (by decide) hparse'
  rw [houtcome, houtcome']
  refine ⟨fun hindex => ?_, fun n hn hhuge => ?_⟩
  · obtain ⟨pad, hpad⟩ := indentation_of_scalar hdecimal hindex
    refine ⟨_, _, dump_of_indentation hindent hpad tree, dump_of_indentation hindent hpad tree',
      ?_, ?_⟩
    · exact Tree.eq_of_render_dump (wellFormed_of_parse hparse) (wellFormed_of_parse hparse')
    · rintro rfl
      rfl
  · subst hn
    exact ⟨dump_of_hugeIndent hindent hhuge tree, dump_of_hugeIndent hindent hhuge tree'⟩

/-- A conditional without an alternative and one with an empty alternative. -/
theorem dumps_of_absent_and_empty_alternative :
    let config := Setting.mapping Settings.defaults
    let absent := Tree.ifElse ⟨1, 1⟩ (.constant ⟨1, 4⟩ (.identifier (.text "a")))
      (.block ⟨1, 11⟩ []) .missing
    let empty := Tree.ifElse ⟨1, 1⟩ (.constant ⟨1, 4⟩ (.identifier (.text "a")))
      (.block ⟨1, 11⟩ []) (.block ⟨1, 16⟩ [])
    parseText "if a then end".toList = .ok absent ∧
    parseText "if a then else end".toList = .ok empty ∧
    ∃ text text', (run "parse" "if a then end".toList "<expr>" config).outcome = .ok text ∧
      (run "parse" "if a then else end".toList "<expr>" config).outcome = .ok text' ∧
      (text = text' ↔ absent = empty) := by
  intro config absent empty
  have habsent : parseText "if a then end".toList = .ok absent := by with_unfolding_all rfl
  have hempty : parseText "if a then else end".toList = .ok empty := by with_unfolding_all rfl
  have hsilent : setting config "cli" "silent" = .ok (.scalar (.bool true)) := rfl
  have hindent : setting config "cli" "json_indent" = .ok (.scalar (.int 2)) := rfl
  have hindex : ∀ n, Scalar.int 2 = .int n → Setting.isIndex n = true := by
    intro n hn
    cases hn
    decide
  exact ⟨habsent, hempty, (dumps_equal_iff "<expr>" "<expr>" hsilent hindent
    (fun m p h => by cases h) habsent hempty).1 hindex⟩

end Command

end NordLang
