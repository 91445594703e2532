import BazziteTower.Network.Reconcile

/-!
# What the forwarding helper settles on

If a run exits with status 0, whatever failed on its way, the chain is the old one
without its stale rules, behind the wanted rules that were inserted, and another run
changes nothing.  A run that does not get so far may insert wanted rules and delete stale
ones, but it never touches another rule.

## Main definitions

* `Looks` — scripts that return and leave the chain as it is.
* `unstale` — a chain without its stale rules.
* `plainTables` — a firewall that does what is relied on.

## Main results

* `converges` — the chain after a run that exits with status 0.
* `settles` — the run after it.
* `touches_own` — what any call of any run does to the chain.
-/

open Prog hiding perform

namespace Forwarding

variable {T : Iptables} {E : Facts} {w : List T.Rule} {desired : List Text} {α β : Type}

/-! ## The next run -/

/-- No call changes the chain. -/
def Same (w w' : List T.Rule) : Prop := w' = w

/-- Every call goes through. -/
def Calm : Op → Choice Unit (List T.Rule) → List T.Rule → Prop := fun _ c _ => c = .calm

/-- A script that returns and leaves the chain as it is. -/
def Looks (T : Iptables) (E : Facts) (p : Script α) (w : List T.Rule) : Prop :=
  p.wp (host T E) Calm Same (fun r v => r.isOk ∧ v = w) w

theorem looks_bind {p : Script α} {f : α → Script β} (hp : Looks T E p w) (hf : ∀ a, Looks T E (f a) w) :
    Looks T E (p >>= f) w := by
  refine wp_bind hp (fun a v hv => ?_) fun e v hv => nomatch hv.1
  rw [hv.2]
  exact hf a

theorem looks_orExit {o : Op} {a : o.Res} {message : String} {f : o.Res → Script β}
    (ho : o.perform T E w = (.ok a, w)) (hf : Looks T E (f a) w) :
    Looks T E (orExit (perform o) message >>= f) w := by
  rintro _ rfl
  simp only [Host.act_calm, host, ho]
  exact ⟨rfl, hf⟩

theorem looks_ensureRule {rule : List Text} (h : Present T rule w) : Looks T E (ensureRule rule) w := by
  obtain ⟨r, hr, hparse⟩ := h
  rintro _ rfl
  have hcheck : (Op.check rule).perform T E w = (.ok (), w) := by simp [Op.perform, hparse, hr]
  simp only [Host.act_calm, host, hcheck]
  exact ⟨rfl, rfl, rfl⟩

theorem looks_foldlM {f : List Text → β → Script (List Text)} (xs : List β)
    (hf : ∀ x ∈ xs, ∀ desired, Looks T E (f desired x) w) (desired : List Text) :
    Looks T E (xs.foldlM f desired) w := by
  induction xs generalizing desired with
  | nil => exact ⟨rfl, rfl⟩
  | cons x xs ih =>
    rw [List.foldlM_cons]
    exact looks_bind (hf x (by simp) desired) (ih fun y hy => hf y (by simp [hy]))

theorem looks_ensureNetwork {uplink network : Text} (hknown : NetworkKnown E network)
    (hpresent : ∀ t, OfNetwork E uplink network t → ∀ rule ∈ t.rules, Present T rule w)
    (desired : List Text) : Looks T E (ensureNetwork uplink desired network) w := by
  rw [ensureNetwork]
  by_cases hn : network = []
  · rw [if_pos hn]
    exact ⟨rfl, rfl⟩
  rw [if_neg hn]
  obtain ⟨xml, bridge, hxml, hbridge, haddresses⟩ := hknown hn
  refine looks_orExit (a := xml) (by simp [Op.perform, hxml]) ?_
  refine looks_orExit (a := bridge) (by simp [Op.perform, hbridge]) ?_
  split
  · exact ⟨rfl, rfl⟩
  · rename_i hcond
    have hi : isInterface bridge := by
      simp only [Bool.or_eq_true, Bool.not_eq_true', not_or, Bool.not_eq_false] at hcond
      exact hcond.2
    obtain ⟨text, htext, hcidrs⟩ := haddresses hi
    refine looks_orExit (a := text) (by simp [Op.perform, htext]) ?_
    refine looks_foldlM _ (fun address haddress desired => ?_) desired
    obtain ⟨cidr, hcidr⟩ := hcidrs address haddress
    have hrules := hpresent ⟨bridge, cidr, uplink⟩
      ⟨hn, rfl, hi, xml, hxml, hbridge, text, htext, address, haddress, hcidr⟩
    refine wp_bind (P := fun r v => r = .ok cidr ∧ v = w) ?_ ?_ (by rintro e v ⟨⟨⟩, -⟩)
    · rintro _ rfl
      simp only [Host.act_calm, host, Op.perform, hcidr]
      exact ⟨rfl, rfl, rfl⟩
    · rintro _ v ⟨⟨⟩, rfl⟩
      exact looks_bind (looks_ensureRule (hrules _ (by simp [Target.rules]))) fun _ =>
        looks_bind (looks_ensureRule (hrules _ (by simp [Target.rules]))) fun _ => ⟨rfl, rfl⟩

/-- The run after one that exited with status 0. -/
theorem looks_main (hT : Documented T) (havailable : E.available) (hE : Discovered E)
    (hpresent : ∀ t, Wanted E t → ∀ rule ∈ t.rules, Present T rule w)
    (hspared : ∀ desired, (∀ c, c ∈ desired ↔ ∃ t, Wanted E t ∧ c = t.comment) →
      ∀ r ∈ w, ¬condemned T desired r) : Looks T E main w := by
  obtain ⟨routes, networks, hroutes, hi, hnetworks, hknown⟩ := hE
  have hlist : Op.list.perform T E w = (.ok (listing T w), w) := by simp [Op.perform, havailable]
  have hne : defaultInterface routes ≠ [] := by
    intro hnil
    rw [hnil] at hi
    simp [isInterface] at hi
  refine looks_orExit (a := ()) rfl (looks_orExit hlist (looks_orExit (a := routes) ?_ ?_))
  · simp [Op.perform, hroutes]
  have hunless : ∀ {condition : Bool} {message : String}, condition →
      Looks T E (exitUnless condition message) w := by
    rintro _ _ rfl
    exact ⟨rfl, rfl⟩
  refine looks_bind (hunless (decide_eq_true hne)) fun _ => looks_bind (hunless hi) fun _ => ?_
  refine looks_orExit (a := networks) (by simp [Op.perform, hnetworks]) ?_
  have hround : ∀ network ∈ linesOf networks, ∀ desired,
      Looks T E (ensureNetwork (defaultInterface routes) desired network) w :=
    fun network hnetwork desired => looks_ensureNetwork (hknown network hnetwork) (fun t ht =>
      hpresent t ((wanted_iff hroutes hi hnetworks).mpr ⟨network, hnetwork, ht⟩)) desired
  -- The comments that the loop collects are the wanted ones.
  refine wp_bind (wp_and (looks_foldlM _ hround []) (leads_networks hroutes hi hnetworks w))
    (fun desired v hv => ?_) (by rintro e v ⟨⟨⟨⟩, -⟩, -⟩)
  obtain ⟨⟨-, rfl⟩, hgathers⟩ := hv
  have hnone : v.filter (condemned T desired) = [] := by
    rw [List.filter_eq_nil_iff]
    exact hspared desired (by simpa using (hgathers.found desired rfl).2)
  refine looks_orExit hlist ?_
  rw [filterMap_listing hT.line, hnone]
  exact ⟨rfl, rfl⟩

/-! ## A firewall and a machine -/

/-- A word that is printed and read as it is. -/
def isPlainWord (word : Text) : Bool :=
  word ≠ [] && word.all fun c => c ≠ ' ' && c ≠ '\t' && c ≠ '\n' && c ≠ '"'

def quote (word : Text) : Text := '"' :: (word ++ ['"'])

/-- The words of a rule, with its comment in quotes. -/
def quoted : List Text → List Text
  | word :: next :: rest =>
    if word = "--comment".toList then word :: quote next :: rest else word :: quoted (next :: rest)
  | words => words

/-- Rules of plain words in the order in which they were given, as in the stand-in of the
tests. -/
def plainTables : Iptables where
  Rule := { words : List Text // words.all isPlainWord }
  decide := inferInstance
  save r := [' '].intercalate (quoted r.1)
  parse words := if h : words.all isPlainWord then some ⟨words, h⟩ else none
  comment r := commentField r.1

theorem unquote_quote (word : Text) : unquote (quote word) = word := by
  have hlast : (word ++ ['"']).getLast? = some '"' := List.getLast?_concat ..
  simp [unquote, quote, hlast]

theorem unquote_plain {word : Text} (h : isPlainWord word) : unquote word = word := by
  have hquote : '"' ∉ word := fun hmem => by
    simp only [isPlainWord, Bool.and_eq_true, List.all_eq_true] at h
    simpa using h.2 _ hmem
  have hhead : word.head? ≠ some '"' := fun hhead => hquote (List.mem_of_head? hhead)
  have hlast : word.getLast? ≠ some '"' := fun hlast => hquote (List.mem_of_getLast? hlast)
  simp [unquote, hhead, hlast]

theorem map_unquote_quoted {words : List Text} (h : ∀ word ∈ words, isPlainWord word) :
    (quoted words).map unquote = words := by
  have hplain : ∀ words : List Text, (∀ word ∈ words, isPlainWord word) →
      words.map unquote = words := fun words h =>
    (List.map_congr_left fun word hword => unquote_plain (h word hword)).trans (List.map_id words)
  fun_induction quoted words with
  | case1 next rest =>
    rw [List.map_cons, List.map_cons, unquote_quote, hplain rest fun w hw => h w (by simp [hw])]
    rfl
  | case2 word next rest hword ih =>
    rw [List.map_cons, unquote_plain (h word (by simp)), ih fun w hw => h w (by simp_all)]
  | case3 words => exact hplain words h

theorem commentField_quoted (words : List Text) :
    commentField (quoted words) = (commentField words).map quote := by
  fun_induction quoted words with
  | case1 next rest => simp [commentField]
  | case2 word next rest hword ih =>
    have hcons : ∃ a l, quoted (next :: rest) = a :: l := by
      cases rest with
      | nil => exact ⟨next, [], rfl⟩
      | cons next' rest =>
        by_cases hnext : next = "--comment".toList
        · exact ⟨_, _, by rw [quoted, if_pos hnext]⟩
        · exact ⟨_, _, by rw [quoted, if_neg hnext]⟩
    obtain ⟨a, l, hl⟩ := hcons
    rw [commentField, if_neg hword, ← ih, hl, commentField, if_neg hword]
  | case3 words hwords =>
    rcases words with _ | ⟨word, _ | ⟨next, rest⟩⟩
    · rfl
    · rfl
    · exact absurd rfl (hwords word next rest)

/-- No character of a printed word separates words or lines. -/
theorem printed_quoted {words : List Text} (h : ∀ word ∈ words, isPlainWord word) :
    ∀ word ∈ quoted words, word ≠ [] ∧ ' ' ∉ word ∧ '\t' ∉ word ∧ '\n' ∉ word := by
  have hplain : ∀ word, isPlainWord word → word ≠ [] ∧ ' ' ∉ word ∧ '\t' ∉ word ∧ '\n' ∉ word := by
    intro word hword
    simp only [isPlainWord, Bool.and_eq_true, List.all_eq_true, decide_eq_true_eq] at hword
    refine ⟨hword.1, fun hmem => ?_, fun hmem => ?_, fun hmem => ?_⟩ <;> simpa using hword.2 _ hmem
  fun_induction quoted words with
  | case1 next rest =>
    intro word hmem
    simp only [List.mem_cons] at hmem
    rcases hmem with rfl | rfl | hmem
    · exact hplain _ (h _ (by simp))
    · have hnext := hplain next (h next (by simp))
      simp [quote, hnext.2]
    · exact hplain word (h word (by simp [hmem]))
  | case2 word next rest hword ih =>
    intro word' hmem
    rcases List.mem_cons.mp hmem with rfl | hmem
    · exact hplain _ (h _ (by simp))
    · exact ih (fun w hw => h w (by simp_all)) word' hmem
  | case3 words => exact fun word hmem => hplain word (h word hmem)

theorem fields_intercalate {words : List Text}
    (h : ∀ word ∈ words, word ≠ [] ∧ ' ' ∉ word ∧ '\t' ∉ word) :
    fields ([' '].intercalate words) = words := by
  have hword : ∀ word ∈ words, ∀ c ∈ word, (decide (c = ' ') || decide (c = '\t')) = false := by
    intro word hmem c hc
    have hspace : c ≠ ' ' := fun heq => (h word hmem).2.1 (heq ▸ hc)
    have htab : c ≠ '\t' := fun heq => (h word hmem).2.2 (heq ▸ hc)
    simp [hspace, htab]
  have hfilter : words.filter (fun word => decide (word ≠ [])) = words :=
    List.filter_eq_self.mpr fun word hmem => decide_eq_true (h word hmem).1
  rcases words with _ | ⟨word, words⟩
  · rfl
  rw [fields]
  refine Eq.trans (congrArg _ ?_) hfilter
  clear hfilter h
  induction words generalizing word with
  | nil =>
    rw [List.intercalate_singleton]
    exact List.splitOnP_eq_singleton (hword word (by simp))
  | cons next words ih =>
    rw [List.intercalate_cons_cons, List.append_assoc, List.singleton_append,
      List.splitOnP_append_cons_of_forall_mem (hword word (by simp)) _ rfl,
      ih next fun w hw => hword w (List.mem_cons_of_mem _ hw)]

theorem fields_save (r : plainTables.Rule) : fields (plainTables.save r) = quoted r.1 :=
  fields_intercalate fun word hmem =>
    have h := printed_quoted (List.all_eq_true.mp r.2) word hmem
    ⟨h.1, h.2.1, h.2.2.1⟩

/-- The comment that the stand-in shows is the one of the rule. -/
theorem shown_plainTables (r : plainTables.Rule) :
    shown plainTables r = (plainTables.comment r).filter fun comment =>
      (commentPrefix ++ [':']).isPrefixOf comment && isOwnComment comment := by
  have hlast (field : Text) : (quote field).getLast? = some '"' :=
    List.getLast?_concat (l := '"' :: field)
  rw [shown, fields_save, ownComment, commentField_quoted]
  change _ = (commentField r.1).filter _
  cases commentField r.1 with
  | none => rfl
  | some field =>
    by_cases hprefix : (commentPrefix ++ [':']).isPrefixOf field <;>
      by_cases hown : isOwnComment field <;>
      simp [-List.isPrefixOf_iff_prefix, hlast, unquote_quote, hprefix, hown, guard, Option.filter]

theorem isPrefixOf_of_isOwnComment {comment : Text} (h : isOwnComment comment) :
    (commentPrefix ++ [':']).isPrefixOf comment := by
  rw [isOwnComment] at h
  split at h
  · rename_i head bridge cidr uplink hsplit
    have hjoin : [':'].intercalate (comment.splitOn ':') = comment := List.intercalate_splitOn ..
    simp only [Bool.and_eq_true, decide_eq_true_eq] at h
    rw [← hjoin, hsplit, h.1.1.1, List.isPrefixOf_iff_prefix, List.intercalate_cons_cons]
    exact List.prefix_append ..
  · cases h

theorem isOwnComment_comment {t : Target} (ht : t.Ordinary) : isOwnComment t.comment := by
  have hname : ∀ {name : Text}, isInterface name → ':' ∉ name := fun h hmem => by
    simp only [isInterface, Bool.and_eq_true, List.all_eq_true] at h
    exact absurd (h.2 _ hmem) (by decide)
  have hcidr : ':' ∉ t.cidr := fun hmem => by
    have h := ht.cidr
    simp only [isCidr, Bool.and_eq_true, List.all_eq_true] at h
    exact absurd (h.2 _ hmem) (by decide)
  have hsplit : t.comment.splitOn ':' = [commentPrefix, t.bridge, t.cidr, t.uplink] := by
    refine List.splitOn_intercalate _ (fun word hword => ?_) (by simp)
    simp only [List.mem_cons, List.not_mem_nil, or_false] at hword
    rcases hword with rfl | rfl | rfl | rfl
    · decide
    · exact hname ht.bridge.1
    · exact hcidr
    · exact hname ht.uplink.1
  rw [isOwnComment, hsplit]
  simp [ht.bridge.1, ht.cidr, ht.uplink.1]

theorem commentField_append {before after : List Text} {comment : Text}
    (h : "--comment".toList ∉ before) :
    commentField (before ++ "--comment".toList :: comment :: after) = some comment := by
  induction before with
  | nil => exact if_pos rfl
  | cons word before ih =>
    have hword : word ≠ "--comment".toList := fun heq => h (by simp [heq])
    have hrest := ih fun hmem => h (List.mem_cons_of_mem _ hmem)
    cases before with
    | nil => exact (if_neg hword).trans hrest
    | cons next before => exact (if_neg hword).trans hrest

theorem commentField_rules {t : Target} (ht : t.Ordinary) {rule : List Text} (hrule : rule ∈ t.rules) :
    commentField rule = some t.comment := by
  have hcidr : "--comment".toList ≠ t.cidr := fun heq => by
    have h := ht.cidr
    rw [← heq] at h
    revert h
    decide
  have hbefore (i o d states : Text) (hi : "--comment".toList ≠ i) (ho : "--comment".toList ≠ o)
      (hd : "--comment".toList ≠ d) (hstates : "--comment".toList ≠ states) :
      "--comment".toList ∉ ["-i".toList, i, "-o".toList, o, d, t.cidr, "-m".toList,
        "conntrack".toList, "--ctstate".toList, states, "-m".toList, "comment".toList] := by
    simp only [List.mem_cons, List.not_mem_nil, or_false, not_or]
    exact ⟨by decide, hi, by decide, ho, hd, hcidr, by decide, by decide, by decide, hstates, by decide,
      by decide⟩
  simp only [Target.rules, List.mem_cons, List.not_mem_nil, or_false] at hrule
  rcases hrule with rfl | rfl
  · exact commentField_append (hbefore _ _ _ _ ht.bridge.2.symm ht.uplink.2.symm (by decide) (by decide))
  · exact commentField_append (hbefore _ _ _ _ ht.uplink.2.symm ht.bridge.2.symm (by decide) (by decide))

theorem not_mem_intercalate {c : Char} {sep : Text} {words : List Text} (hsep : c ∉ sep)
    (h : ∀ word ∈ words, c ∉ word) : c ∉ sep.intercalate words := by
  induction words with
  | nil => simp
  | cons word words ih =>
    cases words with
    | nil => simpa using h
    | cons next words =>
      rw [List.intercalate_cons_cons, List.mem_append, List.mem_append]
      have hrest := ih fun w hw => h w (List.mem_cons_of_mem _ hw)
      simp [h word (by simp), hsep, hrest]

theorem shown_of_own {r : plainTables.Rule} {comment : Text} (h : plainTables.comment r = some comment)
    (hown : isOwnComment comment) : shown plainTables r = some comment := by
  rw [shown_plainTables, h]
  simp [hown, isPrefixOf_of_isOwnComment hown]

theorem documented_plainTables : Documented plainTables where
  line r := by
    have h := printed_quoted (List.all_eq_true.mp r.2)
    exact not_mem_intercalate (by decide) fun word hmem => (h word hmem).2.2.2
  comment r r' comment hshown hparse := by
    rw [shown_plainTables, Option.filter_eq_some_iff] at hshown
    have hwords : (fields (plainTables.save r)).map unquote = r.1 := by
      rw [fields_save, map_unquote_quoted (List.all_eq_true.mp r.2)]
    rw [hwords] at hparse
    simp only [plainTables, dif_pos r.2] at hparse
    obtain rfl := Option.some.inj hparse
    exact hshown.1
  generated t rule r ht hrule hparse := by
    have hcomment : plainTables.comment r = some t.comment := by
      simp only [plainTables] at hparse
      split at hparse
      · rw [← Option.some.inj hparse]
        exact commentField_rules ht hrule
      · cases hparse
    exact ⟨hcomment, shown_of_own hcomment (isOwnComment_comment ht)⟩

theorem legible_plainTables (w : List plainTables.Rule) : Legible plainTables w :=
  fun _ _ _ => shown_of_own

def sampleTarget : Target := ⟨"virbr0".toList, "192.168.122.0/24".toList, "wlp9s0f0".toList⟩

/-- The elements that matter of the default network of libvirt. -/
def sampleElements : List Element :=
  [⟨"name".toList, []⟩, ⟨"forward".toList, [("mode".toList, "nat".toList)]⟩,
    ⟨"bridge".toList, [("name".toList, sampleTarget.bridge), ("stp".toList, "on".toList)]⟩]

/-- One active network, the default one of libvirt. -/
def sampleFacts : Facts where
  available := true
  routes := .ok "default via 192.168.1.1 dev wlp9s0f0 proto dhcp metric 600".toList
  networks := .ok "default\n".toList
  dumpXml _ := .ok "<network/>".toList
  elements _ := .ok sampleElements
  addresses _ := .ok "7: virbr0 inet 192.168.122.1/24 brd 192.168.122.255 scope global virbr0".toList
  network _ := .ok sampleTarget.cidr

theorem eq_sampleTarget {t : Target} (ht : Wanted sampleFacts t) : t = sampleTarget := by
  obtain ⟨routes, networks, hroutes, -, hnetworks, network, -, -, huplink, -, xml, -, hbridge, text, -,
    address, -, hcidr⟩ := ht
  cases hroutes
  have hdefault : defaultInterface
      "default via 192.168.1.1 dev wlp9s0f0 proto dhcp metric 600".toList = sampleTarget.uplink := by
    decide +kernel
  rw [hdefault] at huplink
  have hname : natBridge sampleElements = sampleTarget.bridge := by decide
  have hbridge : sampleTarget.bridge = t.bridge := hname.symm.trans (Except.ok.inj hbridge)
  have hcidr : sampleTarget.cidr = t.cidr := Except.ok.inj hcidr
  cases t
  simp_all [sampleTarget]

theorem ordinary_sampleTarget : sampleTarget.Ordinary := ⟨by decide, by decide, by decide⟩

/-- The rules of a network that is no longer active, and a rule of somebody else. -/
def staleChain : List plainTables.Rule :=
  [⟨Target.outbound ⟨"virbr1".toList, "10.0.0.0/24".toList, "wlp9s0f0".toList⟩, by decide +kernel⟩,
    ⟨Target.inbound ⟨"virbr1".toList, "10.0.0.0/24".toList, "wlp9s0f0".toList⟩, by decide +kernel⟩,
    ⟨["-s".toList, "172.17.0.0/16".toList, "-j".toList, "RETURN".toList], by decide +kernel⟩]

/-- Nothing fails. -/
def undisturbed : List (Choice Unit (List plainTables.Rule)) := List.replicate 30 .calm

/-- Somebody else empties the chain behind the listing. -/
def emptied : List (Choice Unit (List plainTables.Rule)) :=
  List.replicate 13 .calm ++ ⟨fun _ => [], .none⟩ :: List.replicate 10 .calm

theorem quiet_undisturbed : ∀ s ∈ main.steps (host plainTables sampleFacts) undisturbed staleChain,
    s.choice.interfere s.world = s.world := by
  intro s hs
  rw [List.eq_of_mem_replicate (choice_mem_of_mem_steps (host plainTables sampleFacts) hs)]
  rfl

theorem run_undisturbed :
    (main.run (host plainTables sampleFacts) undisturbed staleChain).1 = some (.ok ()) := rfl

/-! ## Convergence -/

theorem stale_iff (hdesired : ∀ c, c ∈ desired ↔ ∃ t, Wanted E t ∧ c = t.comment) {r : T.Rule} :
    stale T desired r ↔ Stale T E r := by
  rw [stale, Option.any_eq_true]
  refine exists_congr fun comment => and_congr_right fun _ => ?_
  simp only [Bool.and_eq_true, Bool.not_eq_true', List.contains_eq_mem, decide_eq_false_iff_not,
    hdesired]
  refine and_congr_right fun _ => ⟨fun h t ht heq => h ⟨t, ht, heq⟩, ?_⟩
  rintro h ⟨t, ht, heq⟩
  exact h t ht heq

open scoped Classical in
/-- The chain without its stale rules. -/
noncomputable def unstale (T : Iptables) (E : Facts) (w : List T.Rule) : List T.Rule :=
  w.filter fun r => ¬Stale T E r

theorem filter_stale (hdesired : ∀ c, c ∈ desired ↔ ∃ t, Wanted E t ∧ c = t.comment) :
    w.filter (fun r => !stale T desired r) = unstale T E w := by
  refine List.filter_congr fun r _ => ?_
  have hstale : stale T desired r = true ↔ Stale T E r := stale_iff hdesired
  by_cases h : Stale T E r
  · simp [h, hstale.mpr h]
  · simp [h, Bool.eq_false_iff.mpr (mt hstale.mp h)]

section Results
variable {cs : List (Choice Unit (List T.Rule))}

theorem outcome_of_run (hT : Documented T) (hordinary : ∀ t, Wanted E t → t.Ordinary)
    (hlegible : Legible T w)
    (hquiet : ∀ s ∈ main.steps (host T E) cs w, s.choice.interfere s.world = s.world)
    (hr : (main.run (host T E) cs w).1 = some (.ok ())) :
    E.available ∧ Discovered E ∧ ∃ desired, Outcome T E w (main.run (host T E) cs w).2 desired := by
  have hleads : Leads T E (fun _ c v => c.interfere v = v) main _ w := leads_main hT
  obtain ⟨havailable, hE, houtcome⟩ := (wp_run (I := fun _ => True) (fun _ _ _ _ h => h)
    (fun _ _ _ h => h) hleads hquiet trivial).2 _ hr rfl
  exact ⟨havailable, hE, houtcome (fun _ _ _ h => h) hordinary hlegible⟩

/-- **The chain after a run that exits with status 0**, whatever failed on its way, is the
old one without its stale rules, behind the wanted rules that were inserted; and every wanted
rule is there. -/
theorem converges (hT : Documented T) (hordinary : ∀ t, Wanted E t → t.Ordinary)
    (hlegible : Legible T w)
    (hquiet : ∀ s ∈ main.steps (host T E) cs w, s.choice.interfere s.world = s.world)
    (hr : (main.run (host T E) cs w).1 = some (.ok ())) :
    (∃ inserted, (main.run (host T E) cs w).2 = inserted ++ unstale T E w ∧
      ∀ r ∈ inserted, ∃ t rule, Wanted E t ∧ rule ∈ t.rules ∧ T.parse rule = some r) ∧
      ∀ t, Wanted E t → ∀ rule ∈ t.rules, Present T rule (main.run (host T E) cs w).2 := by
  obtain ⟨-, -, desired, houtcome⟩ := outcome_of_run hT hordinary hlegible hquiet hr
  obtain ⟨inserted, hchain, hinserted⟩ := houtcome.chain
  exact ⟨⟨inserted, by rw [hchain, filter_stale houtcome.wanted], hinserted⟩, houtcome.present⟩

/-- The rules of the inactive network make way for those of the active one. -/
theorem converges_staleChain :
    (∃ inserted, (main.run (host plainTables sampleFacts) undisturbed staleChain).2 =
      inserted ++ unstale plainTables sampleFacts staleChain ∧
      ∀ r ∈ inserted, ∃ t rule, Wanted sampleFacts t ∧ rule ∈ t.rules ∧
        plainTables.parse rule = some r) ∧
      ∀ t, Wanted sampleFacts t → ∀ rule ∈ t.rules,
        Present plainTables rule (main.run (host plainTables sampleFacts) undisturbed staleChain).2 :=
  converges documented_plainTables (fun _ ht => eq_sampleTarget ht ▸ ordinary_sampleTarget)
    (legible_plainTables _) quiet_undisturbed run_undisturbed

/-- **Another run** after that exits with status 0 and changes nothing. -/
theorem settles (hT : Documented T) (hordinary : ∀ t, Wanted E t → t.Ordinary)
    (hlegible : Legible T w)
    (hquiet : ∀ s ∈ main.steps (host T E) cs w, s.choice.interfere s.world = s.world)
    (hr : (main.run (host T E) cs w).1 = some (.ok ())) (n : ℕ) :
    let v := (main.run (host T E) cs w).2
    let next := List.replicate n Choice.calm
    (∀ s ∈ main.steps (host T E) next v, ((host T E).act s.choice s.op s.world).2 = s.world) ∧
      (main.run (host T E) next v).2 = v ∧
      ∀ r, (main.run (host T E) next v).1 = some r → r = .ok () := by
  intro v next
  obtain ⟨havailable, hE, desired, houtcome⟩ := outcome_of_run hT hordinary hlegible hquiet hr
  have hlooks : Looks T E main v := looks_main hT havailable hE houtcome.present fun desired' h r hr => by
    have hcongr : condemned T desired' r = condemned T desired r := by
      rw [condemned, condemned]
      congr 1
      funext comment
      rw [Bool.eq_iff_iff]
      simp [h, houtcome.wanted]
    rw [hcongr]
    exact houtcome.spared r hr
  have hcalm : ∀ s ∈ main.steps (host T E) next v, s.choice = .calm := fun s hs =>
    List.eq_of_mem_replicate (choice_mem_of_mem_steps (host T E) hs)
  have hrun := wp_run (I := fun u => u = v) (fun _ c u (hc : c = .calm) hu => by rw [hc]; exact hu)
    (fun _ _ h hu => h.trans hu) hlooks hcalm rfl
  refine ⟨fun s hs => ?_, hrun.1, fun r hr' => ?_⟩
  · have hsame := wp_steps hlooks hcalm s hs
    rw [hcalm s hs] at hsame ⊢
    exact hsame
  · obtain ⟨hok, -⟩ := hrun.2 r hr'
    cases r with
    | ok u => rfl
    | error e => cases hok

/-- The run after that. -/
theorem settles_staleChain :
    (∀ s ∈ main.steps (host plainTables sampleFacts) undisturbed
        (main.run (host plainTables sampleFacts) undisturbed staleChain).2,
      ((host plainTables sampleFacts).act s.choice s.op s.world).2 = s.world) ∧
      (main.run (host plainTables sampleFacts) undisturbed
        (main.run (host plainTables sampleFacts) undisturbed staleChain).2).2 =
        (main.run (host plainTables sampleFacts) undisturbed staleChain).2 ∧
      ∀ r, (main.run (host plainTables sampleFacts) undisturbed
        (main.run (host plainTables sampleFacts) undisturbed staleChain).2).1 = some r → r = .ok () :=
  settles documented_plainTables (fun _ ht => eq_sampleTarget ht ▸ ordinary_sampleTarget)
    (legible_plainTables _) quiet_undisturbed run_undisturbed 30

/-- **What a call does to the chain**, in every run, among any changes of others: nothing, or
it inserts a wanted rule, or it deletes a stale one, once everything is known. -/
theorem touches_own (hT : Documented T) :
    ∀ s ∈ main.steps (host T E) cs w,
      Touches T E (s.choice.entry s.world) ((host T E).act s.choice s.op s.world).2 := by
  have hleads : Leads T E (fun _ _ _ => True) main _ w := leads_main hT
  exact wp_steps hleads fun _ _ => trivial

/-- A run that deletes rules that are no longer there. -/
theorem touches_own_emptied :
    (main.run (host plainTables sampleFacts) emptied staleChain).1 = some (.error (.exit "")) ∧
      ∀ s ∈ main.steps (host plainTables sampleFacts) emptied staleChain,
        Touches plainTables sampleFacts (s.choice.entry s.world)
          ((host plainTables sampleFacts).act s.choice s.op s.world).2 :=
  ⟨rfl, touches_own documented_plainTables⟩

end Results

end Forwarding
