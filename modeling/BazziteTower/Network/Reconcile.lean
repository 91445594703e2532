import BazziteTower.Network.Forwarding

/-!
# What a run of the forwarding helper does

Every call of a run inserts a wanted rule, deletes a stale one, or leaves the chain alone,
whatever fails and whoever else changes the chain.  If a run exits with status 0 and
nobody else changes the chain, the wanted rules are there, and the stale ones are not.

## Main definitions

* `Wanted` — the bridges, networks and uplinks that rules are wanted for.
* `Documented` — what the helper relies on in `iptables`.
* `Legible` — chains whose own rules show their comments.
* `Touches` — what a call may do to the chain.

## Main results

* `leads_reconcileStaleRules` — the deletions.
* `leads_main` — the script.
-/

open Prog hiding perform

namespace Forwarding

variable {T : Iptables} {E : Facts} {w : List T.Rule} {desired : List Text} {α β : Type}

/-! ## Lines -/

theorem fields_line (s : Text) :
    fields ("-A DOCKER-USER ".toList ++ s) = "-A".toList :: "DOCKER-USER".toList :: fields s := by
  have hsplit : ("-A DOCKER-USER ".toList ++ s).splitOnP (fun c => c = ' ' || c = '\t') =
      "-A".toList :: "DOCKER-USER".toList :: s.splitOnP fun c => c = ' ' || c = '\t' := by
    rw [show "-A DOCKER-USER ".toList ++ s = "-A".toList ++ ' ' :: ("DOCKER-USER".toList ++ ' ' :: s) from
      rfl]
    rw [List.splitOnP_append_cons_of_forall_mem (by simp) _ rfl,
      List.splitOnP_append_cons_of_forall_mem (by simp) _ rfl]
  rw [fields, hsplit]
  rfl

theorem length_of_commentField {rule : List Text} {field : Text} (h : commentField rule = some field) :
    2 ≤ rule.length := by
  match rule with
  | [] => cases h
  | [_] => cases h
  | _ :: _ :: _ => exact Nat.le_add_left ..

/-- What the helper makes of a line. -/
theorem staleRule_line (s : Text) : staleRule desired ("-A DOCKER-USER ".toList ++ s) =
    (ownComment (fields s)).bind fun comment =>
      if desired.contains comment then none else some ((fields s).map unquote) := by
  rw [staleRule, fields_line]
  rcases hown : ownComment (fields s) with _ | comment
  · simp [hown]
  · have hfield : (commentField (fields s)).isSome := by
      rw [ownComment] at hown
      rcases hfield : commentField (fields s) with _ | field
      · rw [hfield] at hown
        cases hown
      · rfl
    obtain ⟨field, hfield⟩ := Option.isSome_iff_exists.mp hfield
    simp [hown, length_of_commentField hfield]

/-- `-S` prints one line for each rule. -/
theorem linesOf_listing (hline : ∀ r, '\n' ∉ T.save r) (w : List T.Rule) :
    linesOf (listing T w) =
      "-N DOCKER-USER".toList :: w.map fun r => "-A DOCKER-USER ".toList ++ T.save r := by
  rw [linesOf, listing]
  refine List.splitOn_intercalate _ (fun l hl => ?_) (by simp)
  rcases List.mem_cons.mp hl with rfl | hl
  · decide
  · obtain ⟨r, -, rfl⟩ := List.mem_map.mp hl
    intro hmem
    rcases List.mem_append.mp hmem with h | h
    · revert h
      decide
    · exact hline r h

/-- The comment that a rule shows in the listing, if it is one of the helper's. -/
def shown (T : Iptables) (r : T.Rule) : Option Text := ownComment (fields (T.save r))

/-- The helper deletes a rule that it takes for a stale one. -/
def condemned (T : Iptables) (desired : List Text) (r : T.Rule) : Bool :=
  (shown T r).any fun comment => !desired.contains comment

theorem staleRule_of_rule (r : T.Rule) :
    staleRule desired ("-A DOCKER-USER ".toList ++ T.save r) =
      if condemned T desired r then some ((fields (T.save r)).map unquote) else none := by
  rw [staleRule_line, condemned, shown]
  rcases ownComment (fields (T.save r)) with _ | comment
  · rfl
  · by_cases hc : desired.contains comment
    · simp only [Option.bind_some, Option.any_some, hc, Bool.not_true, if_true, Bool.false_eq_true,
        if_false]
    · simp only [Option.bind_some, Option.any_some, hc, Bool.not_false, if_true, Bool.false_eq_true,
        if_false]

/-- The deletions of a listing. -/
theorem filterMap_listing (hline : ∀ r, '\n' ∉ T.save r) (w : List T.Rule) :
    (linesOf (listing T w)).filterMap (staleRule desired) =
      (w.filter (condemned T desired)).map fun r => (fields (T.save r)).map unquote := by
  have hheader : staleRule desired "-N DOCKER-USER".toList = none := by
    have hfields : fields "-N DOCKER-USER".toList = ["-N".toList, "DOCKER-USER".toList] := by decide
    have hadd : ("-N".toList : Text) ≠ "-A".toList := by decide
    rw [staleRule, hfields]
    simp only [hadd, decide_false, Bool.false_and, Bool.false_eq_true, if_false]
  rw [linesOf_listing hline, List.filterMap_cons_none hheader, List.filterMap_map]
  induction w with
  | nil => rfl
  | cons r w ih =>
    rw [List.filterMap_cons, List.filter_cons, Function.comp_apply, staleRule_of_rule]
    by_cases hc : condemned T desired r
    · rw [if_pos hc, if_pos hc, List.map_cons, ih]
    · rw [if_neg hc, if_neg hc, ih]

/-! ## What the component is for -/

def Target.rules (t : Target) : List (List Text) := [t.outbound, t.inbound]

/-- The target belongs to an active network. -/
def OfNetwork (E : Facts) (uplink network : Text) (t : Target) : Prop :=
  network ≠ [] ∧ t.uplink = uplink ∧ isInterface t.bridge ∧
    ∃ xml, E.dumpXml network = .ok xml ∧ E.bridgeName xml = .ok t.bridge ∧
      ∃ text, E.addresses t.bridge = .ok text ∧
        ∃ address ∈ inetAddresses text, E.network address = .ok t.cidr

/-- Forwarding is wanted for the target. -/
def Wanted (E : Facts) (t : Target) : Prop :=
  ∃ routes networks, E.routes = .ok routes ∧ isInterface (defaultInterface routes) ∧
    E.networks = .ok networks ∧
      ∃ network ∈ linesOf networks, OfNetwork E (defaultInterface routes) network t

/-- Nothing is wanted for a network that is not one of NAT. -/
theorem OfNetwork.nat {uplink network : Text} {t : Target} (h : OfNetwork E uplink network t) :
    ∃ xml elements, E.dumpXml network = .ok xml ∧ E.elements xml = .ok elements ∧
      ∃ forward ∈ elements, forward.tag = "forward".toList ∧
        forward.attributes.find "mode".toList = some "nat".toList := by
  obtain ⟨-, -, hinterface, xml, hxml, hbridge, -⟩ := h
  rw [Facts.bridgeName] at hbridge
  cases helements : E.elements xml with
  | error e => simp [helements, Except.map] at hbridge
  | ok elements =>
    refine ⟨xml, elements, hxml, helements, ?_⟩
    have hname : natBridge elements ≠ [] := by
      intro hnil
      simp only [helements, Except.map, hnil, Except.ok.injEq] at hbridge
      rw [← hbridge] at hinterface
      cases hinterface
    rw [natBridge] at hname
    split at hname
    · rename_i forward bridge hforward hbridge
      split_ifs at hname with hmode
      · exact ⟨forward, List.mem_of_find?_eq_some hforward,
          by simpa using List.find?_some hforward, hmode⟩
      · exact absurd rfl hname
    · exact absurd rfl hname

/-- Everything that there is to know about a network can be found out. -/
def NetworkKnown (E : Facts) (network : Text) : Prop :=
  network ≠ [] → ∃ xml bridge, E.dumpXml network = .ok xml ∧ E.bridgeName xml = .ok bridge ∧
    (isInterface bridge → ∃ text, E.addresses bridge = .ok text ∧
      ∀ address ∈ inetAddresses text, ∃ cidr, E.network address = .ok cidr)

/-- Every command that asks for the wanted state answers. -/
def Discovered (E : Facts) : Prop :=
  ∃ routes networks, E.routes = .ok routes ∧ isInterface (defaultInterface routes) ∧
    E.networks = .ok networks ∧ ∀ network ∈ linesOf networks, NetworkKnown E network

/-- The comment is one of the helper's, and no wanted rule has it. -/
def Stale (T : Iptables) (E : Facts) (r : T.Rule) : Prop :=
  ∃ comment, T.comment r = some comment ∧ isOwnComment comment ∧
    ∀ t, Wanted E t → comment ≠ t.comment

/-- What a call of the helper does to the chain: nothing, or it inserts a wanted rule, or
it deletes a stale one, once it knows what is wanted. -/
def Touches (T : Iptables) (E : Facts) (w w' : List T.Rule) : Prop :=
  w' = w ∨
    (∃ t rule r, Wanted E t ∧ rule ∈ t.rules ∧ T.parse rule = some r ∧ w' = r :: w) ∨
    ∃ r ∈ w, Discovered E ∧ Stale T E r ∧ w' = w.erase r

/-- No interface has the name of the option that the helper looks for, and the network is
one of IPv4. -/
structure Target.Ordinary (t : Target) : Prop where
  cidr : isCidr t.cidr
  bridge : isInterface t.bridge ∧ t.bridge ≠ "--comment".toList
  uplink : isInterface t.uplink ∧ t.uplink ≠ "--comment".toList

/-- What the helper relies on in `iptables`. -/
structure Documented (T : Iptables) : Prop where
  line : ∀ r, '\n' ∉ T.save r
  /-- The words of a saved rule, if they are accepted at all, mean a rule with the comment
  that they show. -/
  comment : ∀ r r' comment, shown T r = some comment →
    T.parse ((fields (T.save r)).map unquote) = some r' → T.comment r' = some comment
  /-- A generated rule shows its comment. -/
  generated : ∀ (t : Target) rule r, t.Ordinary → rule ∈ t.rules → T.parse rule = some r →
    T.comment r = some t.comment ∧ shown T r = some t.comment

/-- Every rule with a comment of the helper's shows it in the listing. -/
def Legible (T : Iptables) (w : List T.Rule) : Prop :=
  ∀ r ∈ w, ∀ comment, T.comment r = some comment → isOwnComment comment →
    shown T r = some comment

/-! ## Runs -/

/-- Nobody else changes the chain. -/
def Quiet (ok : Op → Choice Unit (List T.Rule) → List T.Rule → Prop) : Prop :=
  ∀ o c w, ok o c w → c.interfere w = w

/-- Wanted rules were inserted. -/
def Grown (T : Iptables) (E : Facts) (w v : List T.Rule) : Prop :=
  ∃ inserted, v = inserted ++ w ∧
    ∀ r ∈ inserted, ∃ t rule, Wanted E t ∧ rule ∈ t.rules ∧ T.parse rule = some r

/-- The rule is in the chain. -/
def Present (T : Iptables) (rule : List Text) (w : List T.Rule) : Prop :=
  ∃ r ∈ w, T.parse rule = some r

theorem Grown.refl (w : List T.Rule) : Grown T E w w := ⟨[], rfl, nofun⟩

theorem Grown.trans {u v : List T.Rule} (h : Grown T E w v) (h' : Grown T E v u) : Grown T E w u := by
  obtain ⟨rs, rfl, hrs⟩ := h
  obtain ⟨rs', rfl, hrs'⟩ := h'
  refine ⟨rs' ++ rs, (List.append_assoc ..).symm, fun r hr => ?_⟩
  exact (List.mem_append.mp hr).elim (hrs' r) (hrs r)

theorem Present.grown {rule : List Text} {v : List T.Rule} (h : Present T rule w) (hv : Grown T E w v) :
    Present T rule v := by
  obtain ⟨r, hr, hrule⟩ := h
  obtain ⟨rs, rfl, -⟩ := hv
  exact ⟨r, List.mem_append_right rs hr, hrule⟩

section Runs
variable {ok : Op → Choice Unit (List T.Rule) → List T.Rule → Prop}

/-- Every outcome satisfies `Q`, and every call does no more to the chain than it may. -/
def Leads (T : Iptables) (E : Facts) (ok : Op → Choice Unit (List T.Rule) → List T.Rule → Prop)
    (p : Script α) (Q : Except Stop α → List T.Rule → Prop) (w : List T.Rule) : Prop :=
  p.wp (host T E) ok (Touches T E) Q w

theorem Leads.mono {p : Script α} {Q Q' : Except Stop α → List T.Rule → Prop} (hp : Leads T E ok p Q w)
    (hQ : ∀ r v, Q r v → Q' r v) : Leads T E ok p Q' w :=
  wp_mono hp hQ

theorem leads_bind {p : Script α} {f : α → Script β} {Q : Except Stop β → List T.Rule → Prop}
    (R : Except Stop α → List T.Rule → Prop) (hp : Leads T E ok p R w)
    (hok : ∀ a v, R (.ok a) v → Leads T E ok (f a) Q v)
    (herr : ∀ e v, R (.error e) v → Q (.error e) v) : Leads T E ok (p >>= f) Q w :=
  wp_bind hp hok herr

/-- A step of which only the return matters. -/
theorem leads_bind_ok {p : Script α} {f : α → Script β} {Q : List T.Rule → Prop}
    (R : Except Stop α → List T.Rule → Prop) (hp : Leads T E ok p R w)
    (hok : ∀ a v, R (.ok a) v → Leads T E ok (f a) (fun r v => r.isOk → Q v) v) :
    Leads T E ok (p >>= f) (fun r v => r.isOk → Q v) w :=
  leads_bind R hp hok (by rintro _ _ _ ⟨⟩)

/-- A call that looks. -/
theorem leads_ask {o : Op} (ho : ∀ v, (o.perform T E v).2 = v) :
    Leads T E ok (perform o) (fun r v => (Quiet ok → v = w) ∧
      ∀ a, r = .ok a → (o.perform T E v).1 = .ok a) w := by
  refine wp_call (fun _ => .inl rfl) fun c hc => ?_
  have hquiet : Quiet ok → c.interfere w = w := fun h => h o c w hc
  simp only [host, ho]
  exact ⟨fun _ => ⟨hquiet, by rintro _ ⟨⟩⟩, .inl rfl, fun _ => ⟨hquiet, by rintro _ ⟨⟩⟩, hquiet,
    fun _ ha => ha⟩

/-- A call that looks, and the script that goes on if it answers. -/
theorem leads_orExit {o : Op} {message : String} {f : o.Res → Script β}
    {Q : Except Stop β → List T.Rule → Prop} (ho : ∀ v, (o.perform T E v).2 = v)
    (hf : ∀ a v, (Quiet ok → v = w) → (o.perform T E v).1 = .ok a → Leads T E ok (f a) Q v)
    (he : ∀ e v, (Quiet ok → v = w) → Q (.error e) v) :
    Leads T E ok (orExit (perform o) message >>= f) Q w :=
  leads_bind (fun r v => (Quiet ok → v = w) ∧ ∀ a, r = .ok a → (o.perform T E v).1 = .ok a)
    (wp_recover (leads_ask ho) (fun _ _ h => h) fun _ _ h => ⟨h.1, nofun⟩)
    (fun a v h => hf a v h.1 (h.2 a rfl)) fun e v h => he e v h.1

theorem leads_orExit_ok {o : Op} {message : String} {f : o.Res → Script β} {Q : List T.Rule → Prop}
    (ho : ∀ v, (o.perform T E v).2 = v)
    (hf : ∀ a v, (Quiet ok → v = w) → (o.perform T E v).1 = .ok a →
      Leads T E ok (f a) (fun r v => r.isOk → Q v) v) :
    Leads T E ok (orExit (perform o) message >>= f) (fun r v => r.isOk → Q v) w :=
  leads_orExit ho hf (by rintro _ _ _ ⟨⟩)

/-- A wanted rule is in the chain, or inserted. -/
theorem leads_ensureRule {t : Target} {rule : List Text} (ht : Wanted E t) (hrule : rule ∈ t.rules) :
    Leads T E ok (ensureRule rule)
      (fun r v => Quiet ok → Grown T E w v ∧ (r.isOk → Present T rule v)) w := by
  refine wp_recover (leads_ask (o := .check rule) fun _ => rfl) (fun _ v hv hquiet => ?_)
    fun e v hv => ?_
  · obtain rfl := hv.1 hquiet
    refine ⟨.refl v, fun _ => ?_⟩
    have hcheck := hv.2 _ rfl
    simp only [Op.perform] at hcheck
    split at hcheck
    · rename_i hany
      obtain ⟨r, hr, hmem⟩ := (Option.any_eq_true _ _).mp hany
      exact ⟨r, of_decide_eq_true hmem, hr⟩
    · cases hcheck
  · refine wp_call (fun _ => .inl rfl) fun c hc => ?_
    have hw : Quiet ok → c.interfere v = w := fun h => (h _ c v hc).trans (hv.1 h)
    have hkept : Quiet ok → Grown T E w (c.interfere v) := fun h => by
      rw [hw h]
      exact .refl w
    simp only [host, Op.perform]
    split
    · rename_i r hr
      have hgrown : Quiet ok → Grown T E w (r :: c.interfere v) := fun h => by
        rw [hw h]
        refine ⟨[r], rfl, fun r' hr' => ?_⟩
        rw [List.mem_singleton.mp hr']
        exact ⟨t, rule, ht, hrule, hr⟩
      exact ⟨fun _ h => ⟨hkept h, by rintro ⟨⟩⟩, .inr (.inl ⟨t, rule, r, ht, hrule, hr, rfl⟩),
        fun _ h => ⟨hgrown h, by rintro ⟨⟩⟩,
        fun h => ⟨hgrown h, fun _ => ⟨r, List.mem_cons_self .., hr⟩⟩⟩
    · exact ⟨fun _ h => ⟨hkept h, by rintro ⟨⟩⟩, .inl rfl, fun _ h => ⟨hkept h, by rintro ⟨⟩⟩,
        fun h => ⟨hkept h, by rintro ⟨⟩⟩⟩

/-- What a part of the loop leaves: if it returns, everything is known, the comments are
collected, and the rules are there. -/
structure Gathers (T : Iptables) (E : Facts)
    (ok : Op → Choice Unit (List T.Rule) → List T.Rule → Prop) (Known : Prop) (F : Text → Prop)
    (There : List T.Rule → Prop) (desired : List Text) (w : List T.Rule)
    (r : Except Stop (List Text)) (v : List T.Rule) : Prop where
  found : ∀ desired', r = .ok desired' → Known ∧ ∀ c, c ∈ desired' ↔ c ∈ desired ∨ F c
  chain : Quiet ok → Grown T E w v ∧ (r.isOk → There v)

/-- Each round of a loop gathers, and so does the loop. -/
theorem leads_gather {f : List Text → β → Script (List Text)} {Known : β → Prop} {F : β → Text → Prop}
    {P : β → List T.Rule → Prop}
    (hthere : ∀ x v u, Grown T E v u → P x v → P x u) (xs : List β)
    (hf : ∀ x ∈ xs, ∀ desired w, Leads T E ok (f desired x)
      (Gathers T E ok (Known x) (F x) (P x) desired w) w) (desired : List Text)
    (w : List T.Rule) :
    Leads T E ok (xs.foldlM f desired) (Gathers T E ok (∀ x ∈ xs, Known x) (fun c => ∃ x ∈ xs, F x c)
      (fun v => ∀ x ∈ xs, P x v) desired w) w := by
  induction xs generalizing desired w with
  | nil =>
    refine ⟨?_, fun _ => ⟨.refl w, fun _ => nofun⟩⟩
    rintro _ ⟨⟩
    simp
  | cons x xs ih =>
    rw [List.foldlM_cons]
    refine leads_bind _ (hf x (by simp) desired w) (fun desired' v hv => ?_) fun e v hv =>
      ⟨nofun, fun h => ⟨(hv.chain h).1, nofun⟩⟩
    obtain ⟨hknown, hmem⟩ := hv.found desired' rfl
    refine (ih (fun y hy => hf y (by simp [hy])) desired' v).mono fun r u hu => ⟨?_, fun h => ?_⟩
    · intro desired'' hr
      obtain ⟨hknown', hmem'⟩ := hu.found desired'' hr
      refine ⟨by simpa using ⟨hknown, hknown'⟩, fun c => ?_⟩
      rw [hmem', hmem, or_assoc]
      simp
    · obtain ⟨hgrown, hthere'⟩ := hu.chain h
      refine ⟨(hv.chain h).1.trans hgrown, fun hr => ?_⟩
      simpa using ⟨hthere x v u hgrown ((hv.chain h).2 rfl), hthere' hr⟩

/-- An address of a bridge. -/
theorem leads_ensureAddress {bridge uplink address : Text}
    (hwanted : ∀ cidr, E.network address = .ok cidr → Wanted E ⟨bridge, cidr, uplink⟩)
    (desired : List Text) (w : List T.Rule) :
    Leads T E ok (ensureAddress bridge uplink desired address)
      (Gathers T E ok (∃ cidr, E.network address = .ok cidr)
        (fun c => ∃ cidr, E.network address = .ok cidr ∧ c = Target.comment ⟨bridge, cidr, uplink⟩)
        (fun v => ∀ cidr, E.network address = .ok cidr →
          ∀ rule ∈ Target.rules ⟨bridge, cidr, uplink⟩, Present T rule v) desired w) w := by
  refine leads_bind _ (leads_ask (o := .network address) fun _ => rfl) (fun cidr v hv => ?_)
    fun e v hv => ⟨nofun, fun h => ⟨(hv.1 h) ▸ .refl _, nofun⟩⟩
  have hcidr : E.network address = .ok cidr := hv.2 cidr rfl
  have ht := hwanted cidr hcidr
  refine leads_bind _ (leads_ensureRule ht (by simp [Target.rules])) (fun _ u hu => ?_)
    fun e u hu => ⟨nofun, fun h => ⟨hv.1 h ▸ (hu h).1, nofun⟩⟩
  refine leads_bind _ (leads_ensureRule ht (by simp [Target.rules])) (fun _ x hx => ?_)
    fun e x hx => ⟨nofun, fun h => ⟨hv.1 h ▸ (hu h).1.trans (hx h).1, nofun⟩⟩
  refine ⟨?_, fun h => ⟨hv.1 h ▸ (hu h).1.trans (hx h).1, fun _ => ?_⟩⟩
  · rintro _ ⟨⟩
    refine ⟨⟨cidr, hcidr⟩, fun c => ?_⟩
    simp [hcidr]
  · intro cidr' hcidr' rule hrule
    obtain rfl : cidr = cidr' := Except.ok.inj (hcidr.symm.trans hcidr')
    simp only [Target.rules, List.mem_cons, List.not_mem_nil, or_false] at hrule
    rcases hrule with rfl | rfl
    · exact ((hu h).2 rfl).grown (hx h).1
    · exact (hx h).2 rfl

/-- An active network. -/
theorem leads_ensureNetwork {uplink network : Text}
    (hwanted : ∀ t, OfNetwork E uplink network t → Wanted E t) (desired : List Text)
    (w : List T.Rule) :
    Leads T E ok (ensureNetwork uplink desired network)
      (Gathers T E ok (NetworkKnown E network)
        (fun c => ∃ t, OfNetwork E uplink network t ∧ c = t.comment)
        (fun v => ∀ t, OfNetwork E uplink network t → ∀ rule ∈ t.rules, Present T rule v) desired w)
      w := by
  have hstop : ∀ {Known : Prop} {F : Text → Prop} {There : List T.Rule → Prop} (e : Stop) v,
      (Quiet ok → v = w) → Gathers T E ok Known F There desired w (.error e) v := fun e v hv =>
    ⟨nofun, fun h => ⟨hv h ▸ .refl _, nofun⟩⟩
  rw [ensureNetwork]
  by_cases hn : network = []
  · rw [if_pos hn]
    refine ⟨?_, fun _ => ⟨.refl w, fun _ t ht => absurd hn ht.1⟩⟩
    rintro _ ⟨⟩
    exact ⟨fun h => absurd hn h, fun c => ⟨.inl, fun h => h.elim id fun ⟨t, ht, _⟩ => absurd hn ht.1⟩⟩
  rw [if_neg hn]
  refine leads_orExit (fun _ => rfl) (fun xml v hv hxml => ?_) hstop
  refine leads_orExit (fun _ => rfl) (fun bridge u hu hbridge => ?_) fun e u hu =>
    hstop e u fun h => (hu h).trans (hv h)
  have hu' : Quiet ok → u = w := fun h => (hu h).trans (hv h)
  have hxml' : E.dumpXml network = .ok xml := hxml
  have hbridge' : E.bridgeName xml = .ok bridge := hbridge
  -- The bridge of every target of this network.
  have htarget : ∀ t, OfNetwork E uplink network t → t.bridge = bridge := by
    rintro t ⟨-, -, -, xml', hxml'', hname, -⟩
    rw [hxml', Except.ok.injEq] at hxml''
    rw [← hxml'', hbridge', Except.ok.injEq] at hname
    exact hname.symm
  by_cases hi : isInterface bridge
  · have hne : bridge ≠ [] := by
      rintro rfl
      simp [isInterface] at hi
    have hcond : (decide (bridge = []) || !isInterface bridge) = false := by simp [hne, hi]
    simp only [hcond, Bool.false_eq_true, if_false]
    refine leads_orExit (fun _ => rfl) (fun text x hx htext => ?_) fun e x hx =>
      hstop e x fun h => (hx h).trans (hu' h)
    have htext' : E.addresses bridge = .ok text := htext
    have hmember : ∀ address ∈ inetAddresses text, ∀ cidr, E.network address = .ok cidr →
        OfNetwork E uplink network ⟨bridge, cidr, uplink⟩ := fun address haddress cidr hcidr =>
      ⟨hn, rfl, hi, xml, hxml', hbridge', text, htext', address, haddress, hcidr⟩
    refine (leads_gather (P := fun address v => ∀ cidr, E.network address = .ok cidr →
      ∀ rule ∈ Target.rules ⟨bridge, cidr, uplink⟩, Present T rule v)
      (fun _ _ _ hgrown h cidr hcidr rule hrule => (h cidr hcidr rule hrule).grown hgrown) _
      (fun address haddress desired v => leads_ensureAddress
        (fun cidr hcidr => hwanted _ (hmember address haddress cidr hcidr)) desired v)
      desired x).mono fun r y hy => ⟨fun desired' hr => ?_, fun h => ?_⟩
    · obtain ⟨hknown, hmem⟩ := hy.found desired' hr
      refine ⟨fun _ => ⟨xml, bridge, hxml', hbridge', fun _ => ⟨text, htext', hknown⟩⟩, fun c => ?_⟩
      rw [hmem]
      refine or_congr_right ⟨?_, ?_⟩
      · rintro ⟨address, haddress, cidr, hcidr, rfl⟩
        exact ⟨_, hmember address haddress cidr hcidr, rfl⟩
      · rintro ⟨⟨bridge', cidr, uplink'⟩, ht, rfl⟩
        obtain rfl : bridge' = bridge := htarget _ ht
        obtain ⟨-, rfl, -, xml', -, -, text', htext'', address, haddress, hcidr⟩ := ht
        obtain rfl : text = text' := Except.ok.inj (htext'.symm.trans htext'')
        exact ⟨address, haddress, cidr, hcidr, rfl⟩
    · obtain ⟨hgrown, hthere⟩ := hy.chain h
      have hxw : x = w := (hx h).trans (hu' h)
      refine ⟨hxw ▸ hgrown, fun hr => ?_⟩
      rintro ⟨bridge', cidr, uplink'⟩ ht rule hrule
      obtain rfl : bridge' = bridge := htarget _ ht
      obtain ⟨-, rfl, -, xml', -, -, text', htext'', address, haddress, hcidr⟩ := ht
      obtain rfl : text = text' := Except.ok.inj (htext'.symm.trans htext'')
      exact hthere hr address haddress cidr hcidr rule hrule
  · have hcond : (decide (bridge = []) || !isInterface bridge) = true := by simp [hi]
    have hnone : ∀ t, ¬OfNetwork E uplink network t := fun t ht => hi (htarget t ht ▸ ht.2.2.1)
    simp only [hcond, if_true]
    refine ⟨?_, fun h => ⟨hu' h ▸ .refl _, fun _ t ht => absurd ht (hnone t)⟩⟩
    rintro _ ⟨⟩
    exact ⟨fun _ => ⟨xml, bridge, hxml', hbridge', fun h => absurd h hi⟩,
      fun c => ⟨.inl, fun h => h.elim id fun ⟨t, ht, _⟩ => absurd ht (hnone t)⟩⟩

/-! ## Deletions -/

/-- As `Stale`, for a list of the wanted comments. -/
def stale (T : Iptables) (desired : List Text) (r : T.Rule) : Bool :=
  (T.comment r).any fun comment => isOwnComment comment && !desired.contains comment

theorem of_guard {p : Prop} [Decidable p] {u : Unit} (h : (guard p : Option Unit) = some u) : p := by
  by_contra hp
  rw [guard, if_neg hp] at h
  cases h

theorem isOwnComment_of_shown {r : T.Rule} {comment : Text} (h : shown T r = some comment) :
    isOwnComment comment := by
  simp only [shown, ownComment, Option.bind_eq_bind, Option.bind_eq_some_iff] at h
  obtain ⟨field, -, _, -, _, -, _, hown, hcomment⟩ := h
  rw [← Option.some.inj hcomment]
  exact of_guard hown

/-- What is deleted of a chain is stale. -/
theorem stale_of_condemned (hT : Documented T) {r r' : T.Rule} (h : condemned T desired r)
    (hr' : T.parse ((fields (T.save r)).map unquote) = some r') : stale T desired r' := by
  rw [condemned, Option.any_eq_true] at h
  obtain ⟨comment, hshown, hc⟩ := h
  rw [stale, hT.comment r r' comment hshown hr', Option.any_some, isOwnComment_of_shown hshown, hc]
  rfl

theorem condemned_of_stale (hlegible : Legible T w) {r : T.Rule} (hr : r ∈ w) (h : stale T desired r) :
    condemned T desired r := by
  rw [stale, Option.any_eq_true] at h
  obtain ⟨comment, hcomment, hc⟩ := h
  rw [Bool.and_eq_true] at hc
  rw [condemned, hlegible r hr comment hcomment hc.1]
  exact hc.2

/-- Deleting a stale rule. -/
theorem erase_stale {r : T.Rule} (hr : r ∈ w) (h : stale T desired r) :
    (w.erase r).filter (fun r => !stale T desired r) = w.filter (fun r => !stale T desired r) ∧
      (w.erase r).countP (stale T desired) + 1 = w.countP (stale T desired) := by
  constructor
  · rw [← List.erase_filter]
    refine List.erase_of_not_mem fun hmem => ?_
    simp [h] at hmem
  · have hmem : r ∈ w.filter (stale T desired) := List.mem_filter.mpr ⟨hr, h⟩
    have hpos := List.length_pos_of_mem hmem
    rw [List.countP_eq_length_filter, List.countP_eq_length_filter, ← List.erase_filter,
      List.length_erase_of_mem hmem]
    omega

theorem of_countP_le {p q : β → Bool} {xs : List β} (h : ∀ x ∈ xs, p x → q x)
    (hcount : xs.countP q ≤ xs.countP p) : ∀ x ∈ xs, q x → p x := by
  induction xs with
  | nil => nofun
  | cons x xs ih =>
    have htail : ∀ y ∈ xs, p y → q y := fun y hy => h y (List.mem_cons_of_mem x hy)
    have hmono := List.countP_mono_left htail
    have hhead := h x List.mem_cons_self
    simp only [List.countP_cons] at hcount
    by_cases hp : p x
    · rw [if_pos hp, if_pos (hhead hp)] at hcount
      simpa [hp] using ih htail (by omega)
    · by_cases hq : q x
      · rw [if_neg hp, if_pos hq] at hcount
        omega
      · rw [if_neg hp, if_neg hq] at hcount
        simpa [hp, hq] using ih htail hcount

section Deletions
variable (hE : Discovered E) (hdesired : ∀ c, c ∈ desired ↔ ∃ t, Wanted E t ∧ c = t.comment)
include hE hdesired

theorem touches_erase {r : T.Rule} (hr : r ∈ w) (h : stale T desired r) : Touches T E w (w.erase r) := by
  rw [stale, Option.any_eq_true] at h
  obtain ⟨comment, hcomment, hc⟩ := h
  simp only [Bool.and_eq_true, Bool.not_eq_true', List.contains_eq_mem, decide_eq_false_iff_not] at hc
  refine .inr (.inr ⟨r, hr, hE, ⟨comment, hcomment, hc.1, fun t ht heq => hc.2 ?_⟩, rfl⟩)
  exact (hdesired comment).mpr ⟨t, ht, heq⟩

/-- One deletion. -/
theorem leads_deleteRule {rule : List Text} (hrule : ∀ r, T.parse rule = some r → stale T desired r)
    (failed : Bool) :
    Leads T E ok (deleteRule failed rule) (fun r v => Quiet ok →
      v.filter (fun r => !stale T desired r) = w.filter (fun r => !stale T desired r) ∧
        (r = .ok false → failed = false ∧
          v.countP (stale T desired) + 1 = w.countP (stale T desired))) w := by
  -- A deletion that fails may still have taken effect.
  let kept := fun v : List T.Rule => Quiet ok →
    v.filter (fun r => !stale T desired r) = w.filter (fun r => !stale T desired r)
  refine wp_recover (P := fun r v => kept v ∧ ∀ b, r = .ok b → b = failed ∧
    (Quiet ok → v.countP (stale T desired) + 1 = w.countP (stale T desired))) ?_ ?_ ?_
  · refine wp_call (fun _ => .inl rfl) fun c hc => ?_
    have hentry : Quiet ok → c.interfere w = w := fun h => h _ c w hc
    have hkept : kept (c.interfere w) := fun h => by rw [hentry h]
    simp only [host, Op.perform]
    split
    · rename_i r hr
      split
      · rename_i hmem
        obtain ⟨hfilter, hcount⟩ := erase_stale hmem (hrule r hr)
        have herased : kept ((c.interfere w).erase r) := fun h => by rw [hfilter, hentry h]
        refine ⟨fun _ => ⟨hkept, by rintro _ ⟨⟩⟩, touches_erase hE hdesired hmem (hrule r hr),
          fun _ => ⟨herased, by rintro _ ⟨⟩⟩, herased, ?_⟩
        rintro _ ⟨⟩
        exact ⟨rfl, fun h => by rw [hcount, hentry h]⟩
      · exact ⟨fun _ => ⟨hkept, by rintro _ ⟨⟩⟩, .inl rfl, fun _ => ⟨hkept, by rintro _ ⟨⟩⟩, hkept,
          by rintro _ ⟨⟩⟩
    · exact ⟨fun _ => ⟨hkept, by rintro _ ⟨⟩⟩, .inl rfl, fun _ => ⟨hkept, by rintro _ ⟨⟩⟩, hkept,
        by rintro _ ⟨⟩⟩
  · rintro b v ⟨hv, hb⟩ h
    refine ⟨hv h, ?_⟩
    rintro ⟨⟩
    exact ⟨(hb false rfl).1.symm, (hb false rfl).2 h⟩
  · intro e v hv h
    exact ⟨hv.1 h, by rintro ⟨⟩⟩

/-- All deletions: each one that succeeds deletes one stale rule. -/
theorem leads_deleteRules (rules : List (List Text))
    (hrules : ∀ rule ∈ rules, ∀ r, T.parse rule = some r → stale T desired r) (failed : Bool)
    (w : List T.Rule) :
    Leads T E ok (rules.foldlM deleteRule failed) (fun r v => Quiet ok →
      v.filter (fun r => !stale T desired r) = w.filter (fun r => !stale T desired r) ∧
        (r = .ok false → failed = false ∧
          v.countP (stale T desired) + rules.length = w.countP (stale T desired))) w := by
  induction rules generalizing failed w with
  | nil =>
    refine fun _ => ⟨rfl, ?_⟩
    rintro ⟨⟩
    exact ⟨rfl, rfl⟩
  | cons rule rules ih =>
    rw [List.foldlM_cons]
    refine leads_bind _ (leads_deleteRule hE hdesired (hrules rule (by simp)) failed)
      (fun failed' v hv => ?_) fun e v hv h => ⟨(hv h).1, nofun⟩
    refine (ih (fun rule' h => hrules rule' (by simp [h])) failed' v).mono fun r u hu h => ?_
    obtain ⟨hfilter, hcount⟩ := hu h
    obtain ⟨hfilter', hcount'⟩ := hv h
    refine ⟨hfilter.trans hfilter', fun hr => ?_⟩
    obtain ⟨rfl, hcount⟩ := hcount hr
    obtain ⟨hfailed, hcount'⟩ := hcount' rfl
    refine ⟨hfailed, ?_⟩
    rw [List.length_cons]
    omega

/-- **The reconciliation** deletes the stale rules and nothing else, and if it returns, it
deleted all of them. -/
theorem leads_reconcileStaleRules (hT : Documented T) :
    Leads T E ok (reconcileStaleRules desired) (fun r v => Quiet ok → r.isOk → Legible T w →
      v = w.filter (fun r => !stale T desired r) ∧ ∀ r ∈ v, ¬condemned T desired r) w := by
  refine leads_orExit (fun _ => rfl) (fun text v hv htext => ?_) fun _ _ _ _ => nofun
  have htext' : text = listing T v := by
    simp only [Op.perform] at htext
    split at htext
    · exact (Except.ok.inj htext).symm
    · cases htext
  rw [htext', filterMap_listing hT.line]
  refine leads_bind _ (leads_deleteRules hE hdesired _ ?_ false v) (fun failed u hu => ?_)
    fun _ _ _ _ => nofun
  · intro rule hrule r hr
    obtain ⟨r', hr', rfl⟩ := List.mem_map.mp hrule
    exact stale_of_condemned hT (List.mem_filter.mp hr').2 hr
  cases failed with
  | true => exact fun _ => nofun
  | false =>
    intro h _ hlegible
    obtain ⟨hfilter, hcount⟩ := hu h
    obtain ⟨-, hcount⟩ := hcount rfl
    obtain rfl : v = w := hv h
    rw [List.length_map, ← List.countP_eq_length_filter] at hcount
    -- Every stale rule is condemned, so that no other rule is.
    have hcondemned : ∀ r ∈ v, stale T desired r → condemned T desired r := fun r hr =>
      condemned_of_stale hlegible hr
    have hle := List.countP_mono_left hcondemned
    have hnone : ∀ r ∈ u, ¬stale T desired r := List.countP_eq_zero.mp (by omega)
    have hall := of_countP_le hcondemned (by omega)
    have hu : u = v.filter (fun r => !stale T desired r) := by
      rw [← hfilter, eq_comm, List.filter_eq_self]
      intro r hr
      simpa using hnone r hr
    refine ⟨hu, fun r hr hc => ?_⟩
    have hmem := hu ▸ hr
    exact hnone r hr (hall r (List.mem_filter.mp hmem).1 hc)

end Deletions

/-! ## The script -/

theorem wanted_iff {routes networks : Text} (hroutes : E.routes = .ok routes)
    (hi : isInterface (defaultInterface routes)) (hnetworks : E.networks = .ok networks) {t : Target} :
    Wanted E t ↔ ∃ network ∈ linesOf networks, OfNetwork E (defaultInterface routes) network t := by
  refine ⟨?_, fun h => ⟨routes, networks, hroutes, hi, hnetworks, h⟩⟩
  rintro ⟨routes', networks', hroutes', -, hnetworks', h⟩
  obtain rfl : routes = routes' := Except.ok.inj (hroutes.symm.trans hroutes')
  obtain rfl : networks = networks' := Except.ok.inj (hnetworks.symm.trans hnetworks')
  exact h

/-- The loop over the active networks. -/
theorem leads_networks {routes networks : Text} (hroutes : E.routes = .ok routes)
    (hi : isInterface (defaultInterface routes)) (hnetworks : E.networks = .ok networks)
    (w : List T.Rule) :
    Leads T E ok ((linesOf networks).foldlM (ensureNetwork (defaultInterface routes)) [])
      (Gathers T E ok (Discovered E) (fun c => ∃ t, Wanted E t ∧ c = t.comment)
        (fun v => ∀ t, Wanted E t → ∀ rule ∈ t.rules, Present T rule v) [] w) w := by
  have hwanted := fun t => wanted_iff (t := t) hroutes hi hnetworks
  refine (leads_gather (P := fun network v => ∀ t, OfNetwork E (defaultInterface routes) network t →
    ∀ rule ∈ t.rules, Present T rule v) (fun _ _ _ hgrown h t ht rule hrule =>
    (h t ht rule hrule).grown hgrown) _ (fun network hnetwork desired v =>
    leads_ensureNetwork (fun t ht => (hwanted t).mpr ⟨network, hnetwork, ht⟩) desired v) [] w).mono
    fun r v hv => ⟨fun desired hr => ?_, fun h => ⟨(hv.chain h).1, fun hr t ht => ?_⟩⟩
  · obtain ⟨hknown, hmem⟩ := hv.found desired hr
    refine ⟨⟨routes, networks, hroutes, hi, hnetworks, hknown⟩, fun c => ?_⟩
    rw [hmem]
    refine or_congr_right ⟨?_, ?_⟩
    · rintro ⟨network, hnetwork, t, ht, rfl⟩
      exact ⟨t, (hwanted t).mpr ⟨network, hnetwork, ht⟩, rfl⟩
    · rintro ⟨t, ht, rfl⟩
      obtain ⟨network, hnetwork, ht⟩ := (hwanted t).mp ht
      exact ⟨network, hnetwork, t, ht, rfl⟩
  · obtain ⟨network, hnetwork, ht⟩ := (hwanted t).mp ht
    exact (hv.chain h).2 hr network hnetwork t ht

/-- What is inserted shows a wanted comment. -/
theorem Grown.legible {v : List T.Rule} (hT : Documented T) (hordinary : ∀ t, Wanted E t → t.Ordinary)
    (hlegible : Legible T w) (h : Grown T E w v) : Legible T v := by
  obtain ⟨rs, rfl, hrs⟩ := h
  intro r hr comment hcomment hown
  rcases List.mem_append.mp hr with hr | hr
  · obtain ⟨t, rule, ht, hrule, hparse⟩ := hrs r hr
    obtain ⟨hcomment', hshown⟩ := hT.generated t rule r (hordinary t ht) hrule hparse
    rw [hshown, ← hcomment', hcomment]
  · exact hlegible r hr comment hcomment hown

/-- The outcome of a run. -/
structure Outcome (T : Iptables) (E : Facts) (w v : List T.Rule) (desired : List Text) : Prop where
  wanted : ∀ c, c ∈ desired ↔ ∃ t, Wanted E t ∧ c = t.comment
  chain : ∃ inserted, v = inserted ++ w.filter (fun r => !stale T desired r) ∧
    ∀ r ∈ inserted, ∃ t rule, Wanted E t ∧ rule ∈ t.rules ∧ T.parse rule = some r
  present : ∀ t, Wanted E t → ∀ rule ∈ t.rules, Present T rule v
  spared : ∀ r ∈ v, ¬condemned T desired r

/-- What is inserted is not stale. -/
theorem not_stale_of_wanted (hT : Documented T) (hordinary : ∀ t, Wanted E t → t.Ordinary)
    (hdesired : ∀ c, c ∈ desired ↔ ∃ t, Wanted E t ∧ c = t.comment) {t : Target} {rule : List Text}
    {r : T.Rule} (ht : Wanted E t) (hrule : rule ∈ t.rules) (hr : T.parse rule = some r) :
    stale T desired r = false := by
  obtain ⟨hcomment, -⟩ := hT.generated t rule r (hordinary t ht) hrule hr
  simp [stale, hcomment, (hdesired t.comment).mpr ⟨t, ht, rfl⟩]

/-- **A run** that exits with status 0. -/
theorem leads_main (hT : Documented T) :
    Leads T E ok main (fun r v => r.isOk → E.available ∧ Discovered E ∧
      (Quiet ok → (∀ t, Wanted E t → t.Ordinary) → Legible T w →
        ∃ desired, Outcome T E w v desired)) w := by
  have hunless : ∀ {condition : Bool} {message : String} {v : List T.Rule},
      Leads T E ok (exitUnless condition message) (fun r u => u = v ∧ (r.isOk → condition)) v := by
    intro condition message v
    cases condition
    · exact ⟨rfl, nofun⟩
    · exact ⟨rfl, fun _ => rfl⟩
  refine leads_orExit_ok (fun _ => rfl) fun _ v hv _ => ?_
  refine leads_orExit_ok (fun _ => rfl) fun text u hu htext => ?_
  have havailable : E.available := by
    simp only [Op.perform] at htext
    split at htext
    · assumption
    · cases htext
  refine leads_orExit_ok (fun _ => rfl) fun routes x hx hroutes => ?_
  refine leads_bind_ok _ hunless fun _ y hy => ?_
  obtain rfl := hy.1
  refine leads_bind_ok _ hunless fun _ z hz => ?_
  obtain ⟨rfl, hi⟩ := hz
  refine leads_orExit_ok (fun _ => rfl) fun networks y hy hnetworks => ?_
  refine leads_bind_ok _ (leads_networks hroutes (hi rfl) hnetworks y) fun desired v' hv' => ?_
  obtain ⟨hE, hmem⟩ := hv'.found desired rfl
  have hdesired : ∀ c, c ∈ desired ↔ ∃ t, Wanted E t ∧ c = t.comment := by simpa using hmem
  refine (leads_reconcileStaleRules hE hdesired hT).mono fun r u' hu' hr =>
    ⟨havailable, hE, fun h hordinary hlegible => ⟨desired, ?_⟩⟩
  have hyw : y = w := ((hy h).trans (hx h)).trans ((hu h).trans (hv h))
  obtain ⟨hgrown, hthere⟩ := hv'.chain h
  rw [hyw] at hgrown
  obtain ⟨rfl, hspared⟩ := hu' h hr (hgrown.legible hT hordinary hlegible)
  obtain ⟨inserted, rfl, hinserted⟩ := hgrown
  have hkept : ∀ {t rule r}, Wanted E t → rule ∈ t.rules → T.parse rule = some r →
      (!stale T desired r) = true := fun ht hrule hparse => by
    rw [not_stale_of_wanted hT hordinary hdesired ht hrule hparse]
    rfl
  refine ⟨hdesired, ⟨inserted, ?_, hinserted⟩, fun t ht rule hrule => ?_, hspared⟩
  · rw [List.filter_append, List.filter_eq_self.mpr]
    intro r hr
    obtain ⟨t, rule, ht, hrule, hparse⟩ := hinserted r hr
    exact hkept ht hrule hparse
  · obtain ⟨r, hr, hparse⟩ := hthere rfl t ht rule hrule
    exact ⟨r, List.mem_filter.mpr ⟨hr, hkept ht hrule hparse⟩, hparse⟩

end Runs

end Forwarding
