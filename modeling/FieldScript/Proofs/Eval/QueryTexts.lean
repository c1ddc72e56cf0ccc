import FieldScript.Proofs.Eval.Counts
import FieldScript.Proofs.Eval.Stored
import FieldScript.Proofs.Eval.Yields
import FieldScript.Proofs.Settle.Untouched
import FieldScript.Proofs.Text.Percent

/-!
# Queries that are read back

The prelude has a function that appends the entries of an object to a text as a query. Its text is read, and the
expression is followed step by step: the names of the entries are listed and filtered, each entry becomes a pair of
encoded texts, and the pairs are joined. What is read back from the query are the entries that were there.

* `Prelude.reads_cq`: the function and its call as they are read. All that is known of the two texts is found out
  there.
* `Placed`: where the body of the function runs.
* `presentKeys_yields`, `pair_yields`, `query_yields`, `append_yields`: what the parts of the function come to.
* `call_yields`: what the call comes to in a body.
* `Prelude.cq_reads_back`: what the body returns, and what is read back from it.
-/

namespace FieldScript

namespace Prelude

open Settle (returning)

/-! ## How the function is written -/

/-- Whether an expression is `obj?.[m] !== undefined && obj?.[m] !== null`. -/
def isPresence : Expr → Bool
  | .logical .and
      (.binary .strictNotEq (.member (.identifier o _) (.computed (.identifier m _)) _ _) (.identifier u _) _)
      (.binary .strictNotEq (.member (.identifier o' _) (.computed (.identifier m' _)) _ _) (.literal ⟨.null, _⟩ _) _) _ =>
    [o, m, u, o', m'] == ["obj", "m", "undefined", "obj", "m"]
  | _ => false

/-- Whether an expression is `Object.keys(obj).filter(m => obj?.[m] !== undefined && obj?.[m] !== null)`. -/
def isPresentKeys : Expr → Bool
  | .call
      (.member
        (.call (.member (.identifier global _) (.name ⟨keys, _⟩) false _) [.expr (.identifier o _)] false _)
        (.name ⟨filter, _⟩) false _)
      [.expr (.arrow [.ident ⟨m, _⟩] (.expr test) false _)] false _ =>
    [global, keys, o, filter, m] == ["Object", "keys", "obj", "filter", "m"] && isPresence test
  | _ => false

/-- Whether an expression is a template `${encodeURIComponent(m)}=${encodeURIComponent(obj[m])}`. -/
def isPair : Expr → Bool
  | .template [⟨_, before⟩, ⟨_, between⟩, ⟨_, behind⟩]
      [.call (.identifier encode _) [.expr (.identifier m _)] false _,
        .call (.identifier encode' _) [.expr (.member (.identifier o _) (.computed (.identifier m' _)) _ _)] false _] _ =>
    [before, between, behind, encode, m, encode', o, m'] ==
      ["", "=", "", "encodeURIComponent", "m", "encodeURIComponent", "obj", "m"]
  | _ => false

/-- Whether an expression is a template `?${…}` of such pairs for the names of the entries, joined by `&`. -/
def isQuery : Expr → Bool
  | .template [⟨_, before⟩, ⟨_, behind⟩]
      [.call (.member
        (.call (.member keys (.name ⟨map, _⟩) false _) [.expr (.arrow [.ident ⟨m, _⟩] (.expr pair) false _)] false _)
          (.name ⟨join, _⟩) false _) [.expr (.literal ⟨.string separator, _⟩ _)] false _] _ =>
    [before, behind, map, m, join, separator] == ["?", "", "map", "m", "join", "&"] && isPresentKeys keys && isPair pair
  | _ => false

/-- Whether an expression is `url + (….length ? … : '')`, where the names of the entries decide about the query. -/
def isAppend : Expr → Bool
  | .binary .add (.identifier url _)
      (.conditional (.member keys (.name ⟨length, _⟩) false _) query (.literal ⟨.string empty, _⟩ _) _) _ =>
    [url, length, empty] == ["url", "length", ""] && isPresentKeys keys && isQuery query
  | _ => false

/-- Whether a statement declares the function that appends a query. -/
def isAppending : Stmt → Bool
  | .declare (.mk .const
      [.mk (.ident ⟨cq, _⟩) (some (.arrow [.ident ⟨url, _⟩, .ident ⟨obj, _⟩] (.expr body) false _)) _] _) _ =>
    [cq, url, obj] == ["cq", "url", "obj"] && isAppend body
  | _ => false

/-- Whether an expression is `cq(url, obj)`. -/
def isCall : Expr → Bool
  | .call (.identifier cq _) [.expr (.identifier url _), .expr (.identifier obj _)] false _ =>
    [cq, url, obj] == ["cq", "url", "obj"]
  | _ => false

theorem reads_cq :
    (Prelude.declaration "cq").toOption.any isAppending = true ∧
      (Source.ofString "cq(url, obj)").expr.toOption.any isCall = true := by
  rw [Prelude.declaration_of_lines (rfl : Prelude.source? "cq" = _)]
  decide +kernel

/-! ## Where the function runs -/

/-- The global names that the function uses. -/
def queryGlobals : List String := ["Object", "encodeURIComponent", "undefined"]

/-- The context with a bound on the levels of calls. -/
def level (c : Setting) (rounds levels : Nat) : Context :=
  { c with call := c.callFunction rounds levels, rounds := rounds }

/-- Where the function for queries runs: its parameters stand for a text and an object, and the global names it uses
mean what they should. -/
structure Placed (c : Setting) (σ : Scope) (url : String) (o : ObjectRef) (es : List (String × Value)) (s : Store) :
    Prop where
  capabilities : ∀ name ∈ queryGlobals, c.capabilities.contains name = false
  args : ∀ name ∈ queryGlobals, c.args.contains name = false
  free : ∀ name ∈ queryGlobals, Scope.find? s name σ = none
  inside : ∀ f ∈ σ, f.index < s.frames.size
  url : Scope.find? s "url" σ = some ⟨.string url, false⟩
  obj : Scope.find? s "obj" σ = some ⟨.object o, false⟩
  entries : s.objects[o.index]? = some es

variable {c : Setting} {rounds n : Nat} {σ : Scope} {url : String} {o : ObjectRef} {es : List (String × Value)}
  {s t : Store} {e : Expr} {key : String}

namespace Placed

theorem mono (h : Placed c σ url o es s) (hst : s.Continues t) : Placed c σ url o es t where
  capabilities := h.capabilities
  args := h.args
  free name hname := (hst.find? h.inside name).trans (h.free name hname)
  inside f hf := Nat.lt_of_lt_of_le (h.inside f hf) hst.frames_size_le
  url := (hst.find? h.inside _).trans h.url
  obj := (hst.find? h.inside _).trans h.obj
  entries := hst.extended.objects h.entries

/-- The functions inside of it have one more name. -/
theorem within (h : Placed c σ url o es s) (v : Value) :
    Placed c (⟨s.frames.size⟩ :: σ) url o es (s.withFrame [("m", ⟨v, false⟩)]) ∧
      Scope.find? (s.withFrame [("m", ⟨v, false⟩)]) "m" (⟨s.frames.size⟩ :: σ) = some ⟨v, false⟩ := by
  have hfind := Store.Continues.find?_withFrame (.refl (s.withFrame [("m", (⟨v, false⟩ : Binding))])) h.inside
  refine ⟨⟨h.capabilities, h.args, fun name hname => ?_, Store.withFrame_bounds _ h.inside, ?_, ?_, h.entries⟩, ?_⟩
  · have hne : (name == "m") = false := by
      revert name
      decide
    rw [hfind, List.lookup_cons, hne]
    exact h.free name hname
  · rw [hfind]
    exact h.url
  · rw [hfind]
    exact h.obj
  · rw [hfind]
    rfl

/-- The value of a global name. -/
theorem lookup_value (h : Placed c σ url o es s) {name : String} (hname : name ∈ queryGlobals) {v : Value}
    (hglobal : Global.ofName? name = some (.value v)) : (c.lookup name σ).run s = (.ok v, s) := by
  rw [Setting.lookup_free (h.free name hname),
    Setting.lookup_value (h.capabilities name hname) (h.args name hname) hglobal]
  rfl

theorem object_eq (h : Placed c σ url o es s) : s.object o = es := by
  unfold Store.object
  rw [h.entries, Option.getD_some]

end Placed

/-! ## What the parts of the function come to -/

/-- The value of an entry, undefined if there is none. -/
def entryValue (es : List (String × Value)) (key : String) : Value := (es.lookup key).getD .undefined

theorem entry_yields {optional : Bool} {s₁ s₂ s₃ : Span} (h : Placed c σ url o es s)
    (hm : Scope.find? s "m" σ = some ⟨.string key, false⟩) :
    (Expr.member (.identifier "obj" s₁) (.computed (.identifier "m" s₂)) optional s₃).Yields (level c rounds n) σ s
      fun v _ => v = entryValue es key := by
  refine .index (.identifier (Setting.lookup_bound h.obj) (.refl s) ⟨rfl, ?_⟩)
  refine .identifier (Setting.lookup_bound hm) (.refl s) ⟨key, _, Value.toText_string key s, rfl, ?_⟩
  show ((s.object o).lookup key).getD .undefined = _
  rw [h.object_eq, entryValue]

/-- A value is neither undefined nor null if it equals neither. -/
theorem not_isNullish (v : Value) : (!v.isNullish) = (!v.strictEquals .undefined && !v.strictEquals .null) := by
  cases v <;> rfl

theorem presence_yields (h : Placed c σ url o es s) (hm : Scope.find? s "m" σ = some ⟨.string key, false⟩)
    (he : isPresence e = true) :
    e.Yields (level c rounds n) σ s fun v _ => v = .bool (!(entryValue es key).isNullish) := by
  unfold isPresence at he
  split at he
  · simp only [beq_iff_eq, List.cons.injEq, and_true] at he
    obtain ⟨rfl, rfl, rfl, rfl, rfl⟩ := he
    rw [not_isNullish]
    refine .logical (.binary ((entry_yields h hm).imp ?_))
    rintro _ t hst rfl
    have ht := h.mono hst
    refine .identifier (ht.lookup_value (by decide) rfl) (.refl t) ⟨_, rfl, ?_⟩
    cases (entryValue es key).strictEquals .undefined with
    | true => rfl
    | false =>
        refine .binary ((entry_yields ht ((hst.find? h.inside "m").trans hm)).imp ?_)
        rintro _ u - rfl
        exact .literal ⟨_, rfl, rfl⟩
  · cases he

/-- The names of the entries that are neither null nor undefined. -/
def presentKeys (es : List (String × Value)) : List String :=
  (es.map (·.1)).filter fun key => !(entryValue es key).isNullish

theorem objectKeys_yields {s₁ s₂ s₃ s₄ s₅ : Span} (h : Placed c σ url o es s) :
    (Expr.call (.member (.identifier "Object" s₁) (.name ⟨"keys", s₂⟩) false s₃) [.expr (.identifier "obj" s₄)] false
      s₅).Yields (level c rounds (n + 1)) σ s fun v t => ∃ a, v = .array a ∧
        t.arrays[a.index]? = some ((es.map (·.1)).map Value.string).toArray := by
  have hglobal : "Object" ∈ queryGlobals := by decide
  have hkeys : ∀ ctx : Context, ctx.toSetting = c → ∃ entries,
      Eval.link ctx (.member (.identifier "Object" s₁) (.name ⟨"keys", s₂⟩) false s₃) σ s =
        .done (.ok (some (.function (.builtin .objectKeys)))) (s.addObject entries).2 := by
    rintro ctx rfl
    exact ⟨_, Eval.link_groupMember ctx (h.capabilities _ hglobal) (h.args _ hglobal) (h.free _ hglobal) rfl (by rfl)
      s₁ s₂ s₃⟩
  obtain ⟨entries, hkeys⟩ := hkeys (level c rounds (n + 1)) rfl
  refine .call ⟨_, _, hkeys, .addObject s _, _, rfl, _, rfl, ?_⟩
  have ht := h.mono (.addObject s entries)
  refine Eval.values_cons_yields (.identifier (Setting.lookup_bound ht.obj) (.refl _) (Eval.values_nil_yields ?_))
  refine .ofAct (x := Builtin.callPlain .objectKeys [.object o]) rfl (.addArray _ _)
    ⟨_, rfl, (Store.getElem?_addArray _).trans ?_⟩
  show some ((((s.addObject entries).2.object o).map fun entry => Value.string entry.1).toArray) = _
  rw [ht.object_eq, List.map_map]
  rfl

/-- A function of one parameter inside of the function for queries is called. -/
theorem inner_yields {ref : ClosureRef} {span : Span} {v : Value} {more : List Value} {P : Value → Store → Prop}
    (hclosure : s.closures[ref.index]? = some ⟨[.ident ⟨"m", span⟩], .expr e, false, σ⟩)
    (h : e.Yields (level c rounds n) (⟨s.frames.size⟩ :: σ) (s.withFrame [("m", ⟨v, false⟩)]) P) :
    (c.callFunction rounds (n + 1) (.closure ref) (v :: more)).Yields s P := by
  have hclosure : s.closures[ref.index]? = some ⟨[(⟨"m", span⟩ : Ident)].map .ident, .expr e, false, σ⟩ := hclosure
  exact callFunction_yields hclosure h

/-- Whether a value is the name of an entry that is neither null nor undefined. -/
def isPresentKey (es : List (String × Value)) : Value → Bool
  | .string key => !(entryValue es key).isNullish
  | _ => false

theorem presentKeys_yields (h : Placed c σ url o es s) (he : isPresentKeys e = true) :
    e.Yields (level c rounds (n + 2)) σ s fun v t => ∃ a, v = .array a ∧
      t.arrays[a.index]? = some ((presentKeys es).map Value.string).toArray := by
  unfold isPresentKeys at he
  split at he
  · next mspan test aspan _ =>
    simp only [Bool.and_eq_true, beq_iff_eq, List.cons.injEq, and_true] at he
    obtain ⟨⟨rfl, rfl, rfl, rfl, rfl⟩, htest⟩ := he
    refine .call (.member ((objectKeys_yields h).imp ?_))
    rintro _ t hst ⟨a, rfl, ha⟩
    refine ⟨_, rfl, _, rfl, ?_⟩
    refine Eval.values_cons_yields (.arrow (Eval.values_nil_yields ?_))
    have htu := Store.Continues.addClosure t ⟨[.ident ⟨"m", mspan⟩], .expr test, false, σ⟩
    have hu := h.mono (hst.trans htu)
    refine (CallbackMethod.filter_yields (p := isPresentKey es) (htu.extended.arrays ha) ?_).imp ?_
    · intro v hv i w huw
      obtain ⟨key, hkey, rfl⟩ := List.mem_map.1 (List.mem_toArray.1 hv)
      have hw := hu.mono huw
      refine inner_yields (huw.closures (Store.Continues.getElem?_addClosure t _)) ?_
      refine (presence_yields (hw.within _).1 (hw.within _).2 htest).imp ?_
      rintro _ x - rfl
      rfl
    · rintro _ w - ⟨b, rfl, hb⟩
      refine ⟨b, rfl, hb.trans ?_⟩
      rw [List.filter_map]
      rfl
  · cases he

/-- The text of an entry, empty if there is none. -/
def entryText (es : List (String × Value)) (key : String) : String :=
  match entryValue es key with
  | .string text => text
  | _ => ""

theorem encode_yields (text : String) {s₁ s₂ : Span} (h : Placed c σ url o es s)
    (he : ∀ t, s.Continues t → e.Yields (level c rounds (n + 1)) σ t fun v _ => v = .string text) :
    (Expr.call (.identifier "encodeURIComponent" s₁) [.expr e] false s₂).Yields (level c rounds (n + 1)) σ s
      fun v _ => v = .string (Text.percentEncode text) := by
  refine .call (.identifier (h.lookup_value (by decide) rfl) (.refl s) ⟨_, rfl, ?_⟩)
  refine Eval.values_cons_yields ((he s (.refl s)).imp ?_)
  rintro _ t - rfl
  exact Eval.values_nil_yields (.ofAct (x := Builtin.callPlain .encodeURIComponent [.string text]) rfl (.refl t) rfl)

theorem pair_yields {text : String} (h : Placed c σ url o es s) (hm : Scope.find? s "m" σ = some ⟨.string key, false⟩)
    (htext : entryValue es key = .string text) (he : isPair e = true) :
    e.Yields (level c rounds (n + 1)) σ s fun v _ => v = .string (Text.queryEntry (key, text)) := by
  unfold isPair at he
  split at he
  · simp only [beq_iff_eq, List.cons.injEq, and_true] at he
    obtain ⟨rfl, rfl, rfl, rfl, rfl, rfl, rfl, rfl⟩ := he
    refine .template (Eval.texts_cons_yields ((encode_yields key h fun t hst => ?_).imp ?_))
    · exact .identifier (Setting.lookup_bound ((hst.find? h.inside "m").trans hm)) (.refl t) rfl
    · rintro _ t hst rfl
      refine ⟨_, rfl, Eval.texts_cons_yields ((encode_yields text (h.mono hst) fun u htu => ?_).imp ?_)⟩
      · have hsu := hst.trans htu
        refine (entry_yields (h.mono hsu) ((hsu.find? h.inside "m").trans hm)).imp ?_
        rintro _ x - rfl
        exact htext
      · rintro _ u - rfl
        refine ⟨_, rfl, Eval.texts_nil_yields ?_⟩
        simp [interleave, Text.queryEntry, String.append_assoc]
  · cases he

/-- The text of a pair. -/
def pairValue (es : List (String × Value)) : Value → Value
  | .string key => .string (Text.queryEntry (key, entryText es key))
  | v => v

theorem query_yields (h : Placed c σ url o es s)
    (htexts : ∀ key ∈ presentKeys es, ∃ text, entryValue es key = .string text) (he : isQuery e = true) :
    e.Yields (level c rounds (n + 3)) σ s fun v _ =>
      v = .string ("?" ++ Text.query ((presentKeys es).map fun key => (key, entryText es key))) := by
  unfold isQuery at he
  split at he
  · next keys _ _ _ _ mspan pair _ _ _ _ _ _ _ _ _ _ =>
    simp only [Bool.and_eq_true, beq_iff_eq, List.cons.injEq, and_true] at he
    obtain ⟨⟨⟨rfl, rfl, rfl, rfl, rfl, rfl⟩, hkeys⟩, hpair⟩ := he
    refine .template (Eval.texts_cons_yields (.call (.member (.call (.member ((presentKeys_yields h hkeys).imp ?_))))))
    rintro _ t hst ⟨a, rfl, ha⟩
    refine ⟨_, rfl, _, rfl, Eval.values_cons_yields (.arrow (Eval.values_nil_yields ?_))⟩
    have htu := Store.Continues.addClosure t ⟨[.ident ⟨"m", mspan⟩], .expr pair, false, σ⟩
    have hu := h.mono (hst.trans htu)
    refine (CallbackMethod.map_yields (g := pairValue es) (htu.extended.arrays ha) ?_).imp ?_
    · intro v hv i w huw
      obtain ⟨key, hkey, rfl⟩ := List.mem_map.1 (List.mem_toArray.1 hv)
      obtain ⟨text, htext⟩ := htexts key hkey
      have hw := hu.mono huw
      refine inner_yields (huw.closures (Store.Continues.getElem?_addClosure t _)) ?_
      refine (pair_yields (hw.within _).1 (hw.within _).2 htext hpair).imp ?_
      rintro _ x - rfl
      simp [pairValue, entryText, htext]
    · rintro _ w - ⟨b, rfl, hb⟩
      have hitems : w.arrays[b.index]? = some ((((presentKeys es).map fun key =>
          (key, entryText es key)).map Text.queryEntry).map Value.string).toArray := by
        rw [hb, List.map_map, List.map_map, List.map_map]
        rfl
      refine ⟨_, rfl, _, rfl, Eval.values_cons_yields (.literal (Eval.values_nil_yields ?_))⟩
      refine .ofAct (ArrayMethod.join_run "&" hitems) (.refl w) ⟨_, rfl, Eval.texts_nil_yields ?_⟩
      simp [interleave, Text.query]
  · cases he

/-- A text with a query behind it, unless the query has no entries. -/
def appended (url : String) (entries : List (String × String)) : String :=
  if entries.isEmpty then url else url ++ "?" ++ Text.query entries

theorem append_yields (h : Placed c σ url o es s)
    (htexts : ∀ key ∈ presentKeys es, ∃ text, entryValue es key = .string text) (he : isAppend e = true) :
    e.Yields (level c rounds (n + 3)) σ s fun v _ =>
      v = .string (appended url ((presentKeys es).map fun key => (key, entryText es key))) := by
  unfold isAppend at he
  split at he
  · simp only [Bool.and_eq_true, beq_iff_eq, List.cons.injEq, and_true] at he
    obtain ⟨⟨⟨rfl, rfl, rfl⟩, hkeys⟩, hquery⟩ := he
    refine .binary (.identifier (Setting.lookup_bound h.url) (.refl s) ?_)
    refine .conditional (.member ((presentKeys_yields h hkeys).imp ?_))
    rintro _ t hst ⟨a, rfl, ha⟩
    have hsize : (t.array a).size = (presentKeys es).length := by
      unfold Store.array
      rw [ha, Option.getD_some, List.size_toArray, List.length_map]
    refine ⟨.number (Float.ofNat (t.array a).size), rfl, ?_⟩
    rw [hsize, Value.isTruthy_ofNat]
    cases hpresent : presentKeys es with
    | nil =>
        refine .literal ⟨.string (url ++ ""), rfl, ?_⟩
        rw [String.append_empty]
        rfl
    | cons key keys =>
        refine (query_yields (h.mono hst) htexts hquery).imp ?_
        rintro _ u - rfl
        refine ⟨.string (url ++ _), rfl, ?_⟩
        rw [hpresent]
        show _ = Value.string (url ++ "?" ++ _)
        rw [String.append_assoc]
  · cases he

/-! ## The members of an object -/

/-- The members of an object that are texts. -/
def textMembers (members : List (String × Json)) : List (String × String) :=
  members.filterMap fun
    | (name, .string text) => some (name, text)
    | _ => none

/-- The value of a text, null for everything else. -/
def textOrNull : Json → Value
  | .string text => .string text
  | _ => .null

/-- The entries of an object whose members are texts and null. -/
def textEntries (members : List (String × Json)) : List (String × Value) := members.map fun m => (m.1, textOrNull m.2)

variable {members : List (String × Json)}

theorem ofJsonMembers_texts (hvalues : ∀ m ∈ members, m.2 = .null ∨ ∃ text, m.2 = .string text) (s : Store) :
    (Value.ofJsonMembers members).run s = (textEntries members, s) := by
  induction members with
  | nil => rfl
  | cons m rest ih =>
      obtain ⟨name, j⟩ := m
      have hfirst : (Value.ofJson j).run s = (textOrNull j, s) := by
        obtain rfl | ⟨text, rfl⟩ : j = .null ∨ ∃ text, j = .string text := hvalues _ List.mem_cons_self <;> rfl
      rw [Value.ofJsonMembers_run_cons, hfirst, ih fun m hm => hvalues m (List.mem_cons_of_mem _ hm)]
      rfl

theorem lookup_of_nodup {β : Type} {entries : List (String × β)} (hkeys : (entries.map (·.1)).Nodup) {name : String}
    {b : β} (h : (name, b) ∈ entries) : entries.lookup name = some b := by
  obtain ⟨before, behind, rfl⟩ := List.append_of_mem h
  refine List.lookup_eq_some_iff.2 ⟨before, behind, rfl, fun e he => ?_⟩
  rw [List.map_append, List.map_cons] at hkeys
  have hapart := (List.nodup_append.1 hkeys).2.2 e.1 (List.mem_map_of_mem he) name List.mem_cons_self
  simpa using hapart.symm

theorem entryValue_textEntries (hkeys : (members.map (·.1)).Nodup) {m : String × Json} (hm : m ∈ members) :
    entryValue (textEntries members) m.1 = textOrNull m.2 := by
  have hnames : ((textEntries members).map (·.1)).Nodup := by
    rw [textEntries, List.map_map]
    exact hkeys
  unfold entryValue
  have hentry : (m.1, textOrNull m.2) ∈ textEntries members := List.mem_map.2 ⟨m, hm, rfl⟩
  rw [lookup_of_nodup hnames hentry, Option.getD_some]

/-- The entries that are neither null nor undefined are the texts. -/
theorem presentKeys_textEntries (hkeys : (members.map (·.1)).Nodup) :
    (presentKeys (textEntries members)).map (fun key => (key, entryText (textEntries members) key)) =
      textMembers members := by
  unfold presentKeys
  have hnames : (textEntries members).map (·.1) = members.map (·.1) := by
    rw [textEntries, List.map_map]
    rfl
  rw [hnames, List.filter_map, List.map_map, textMembers, ← List.filterMap_eq_map, List.filterMap_filter]
  refine List.filterMap_congr fun m hm => ?_
  have hvalue := entryValue_textEntries hkeys hm
  obtain ⟨name, j⟩ := m
  simp only [Function.comp, entryText, hvalue]
  cases j <;> rfl

theorem presentKeys_text (hkeys : (members.map (·.1)).Nodup) :
    ∀ key ∈ presentKeys (textEntries members), ∃ text, entryValue (textEntries members) key = .string text := by
  intro key hkey
  obtain ⟨hname, hpresent⟩ := List.mem_filter.1 hkey
  rw [textEntries, List.map_map] at hname
  obtain ⟨m, hm, rfl⟩ := List.mem_map.1 hname
  have hvalue := entryValue_textEntries hkeys hm
  obtain ⟨name, j⟩ := m
  dsimp only [Function.comp] at hvalue hpresent ⊢
  rw [hvalue] at hpresent ⊢
  cases j with
  | string text => exact ⟨text, rfl⟩
  | _ => cases hpresent

/-! ## The body -/

theorem isAppending_shape {d : Stmt} (h : isAppending d = true) :
    ∃ s₁ s₂ s₃ s₄ s₅ s₆ s₇ append, isAppend append = true ∧ d = .declare (.mk .const
      [.mk (.ident ⟨"cq", s₁⟩) (some (.arrow [.ident ⟨"url", s₂⟩, .ident ⟨"obj", s₃⟩] (.expr append) false s₄)) s₅] s₆) s₇ := by
  unfold isAppending at h
  split at h
  · simp only [Bool.and_eq_true, beq_iff_eq, List.cons.injEq, and_true] at h
    obtain ⟨⟨rfl, rfl, rfl⟩, happend⟩ := h
    exact ⟨_, _, _, _, _, _, _, _, happend, rfl⟩
  · cases h

theorem isCall_shape {e : Expr} (h : isCall e = true) : ∃ s₁ s₂ s₃ s₄, e = .call (.identifier "cq" s₁)
    [.expr (.identifier "url" s₂), .expr (.identifier "obj" s₃)] false s₄ := by
  unfold isCall at h
  split at h
  · simp only [beq_iff_eq, List.cons.injEq, and_true] at h
    obtain ⟨rfl, rfl, rfl⟩ := h
    exact ⟨_, _, _, _, rfl⟩
  · cases h

/-- What is settled declares the function and returns its value. -/
theorem settle_call {capabilities : Capabilities} {args : List String} (s₁ s₂ s₃ s₄ : Span)
    (hcap : capabilities.contains "cq" = false) (hargs : args.contains "cq" = false) :
    let body := Expr.call (.identifier "cq" s₁) [.expr (.identifier "url" s₂), .expr (.identifier "obj" s₃)] false s₄
    ∃ d, isAppending d = true ∧ settle body capabilities args = .ok (.mk [d, returning body] body.span) := by
  intro body
  have himmediate : Immediate body.nodes := List.all_eq_true.1 rfl
  have huses : body.uses = [.call "cq", .read "cq", .read "url", .read "obj"] := rfl
  have hcalls : ∀ name, .call name ∈ body.uses → capabilities.isAsync name = false := by
    intro name hname
    rw [huses] at hname
    obtain rfl : name = "cq" := by simpa using hname
    exact Capabilities.isAsync_of_not_contains hcap
  obtain ⟨helpers, hmap, hsettle⟩ := settle_answers args himmediate hcalls
  have hneeded : (Prelude.names.filter fun name =>
      .read name ∈ body.uses && !capabilities.contains name && !args.contains name) = ["cq"] := by
    have hnames : (Prelude.names.filter fun name => .read name ∈ body.uses) = ["cq"] := by
      rw [huses]
      decide
    have hboth : ∀ name, (decide (.read name ∈ body.uses) && !capabilities.contains name && !args.contains name) =
        (!capabilities.contains name && !args.contains name && decide (.read name ∈ body.uses)) := fun name => by
      rw [Bool.and_assoc, Bool.and_comm]
    simp only [hboth]
    rw [← List.filter_filter, hnames, List.filter_cons_of_pos (by rw [hcap, hargs]; rfl), List.filter_nil]
  have hcq : "cq" ∈ Prelude.names := by decide
  obtain ⟨d, hd, -⟩ := Prelude.exists_helper hcq
  have happending := reads_cq.1
  rw [hd] at happending
  rw [hneeded, List.mapM_cons, hd] at hmap
  cases hmap
  exact ⟨d, happending, hsettle⟩

section

variable {setting : Setting} {rounds : Nat} {append : Expr} {s₁ s₂ s₃ s₄ s₅ s₆ : Span}

/-- The store behind the declaration of the function. -/
def declared (s : Store) (append : Expr) (s₁ s₂ : Span) : Store :=
  s.opened.withFunction ⟨1⟩ "cq" ⟨[.ident ⟨"url", s₁⟩, .ident ⟨"obj", s₂⟩], .expr append, false, Scope.body⟩

theorem find?_declared_ne {name : String} (hne : name ≠ "cq") :
    Scope.find? (declared s append s₁ s₂) name Scope.body = none :=
  (Scope.find?_set_ne hne).trans (find?_body _ _ rfl)

theorem declared_bounds : ∀ f ∈ Scope.body, f.index < (declared s append s₁ s₂).frames.size := by
  have hsize : (declared s append s₁ s₂).frames.size = s.opened.frames.size := Array.size_modify ..
  rw [hsize]
  exact s.opened_bounds

/-- In a call, the parameters of the function stand for the arguments. -/
theorem placed_call (hcap : ∀ name ∈ queryGlobals, setting.capabilities.contains name = false)
    (hargs : ∀ name ∈ queryGlobals, setting.args.contains name = false) (hes : s.objects[o.index]? = some es) :
    Placed setting (⟨(declared s append s₁ s₂).frames.size⟩ :: Scope.body) url o es
      ((declared s append s₁ s₂).withFrame (Entries.setAll [] (boundArguments [⟨"url", s₁⟩, ⟨"obj", s₂⟩]
        [.string url, .object o]))) := by
  have hfind := Store.Continues.find?_withFrame (.refl ((declared s append s₁ s₂).withFrame
    (Entries.setAll [] (boundArguments [⟨"url", s₁⟩, ⟨"obj", s₂⟩] [.string url, .object o])))) declared_bounds
  refine ⟨hcap, hargs, fun name hname => ?_, Store.withFrame_bounds _ declared_bounds, ?_, ?_, hes⟩
  · have hne : ∀ name ∈ queryGlobals, name ≠ "cq" ∧ (Entries.setAll []
        (boundArguments [⟨"url", s₁⟩, ⟨"obj", s₂⟩] [.string url, .object o])).lookup name = none := by
      intro name hname
      simp only [queryGlobals, List.mem_cons, List.not_mem_nil, or_false] at hname
      rcases hname with rfl | rfl | rfl <;> exact ⟨by decide, rfl⟩
    rw [hfind, (hne name hname).2, find?_declared_ne (hne name hname).1]
    rfl
  · rw [hfind]
    rfl
  · rw [hfind]
    rfl

/-- The function is called with the arguments. -/
theorem call_yields (setting : Setting)
    (hcap : ∀ name ∈ ["url", "obj"] ++ queryGlobals, setting.capabilities.contains name = false)
    (hargs : setting.args.Perm ["url", "obj"])
    (hurl : (s.object setting.data).lookup "url" = some (.string url))
    (hobj : (s.object setting.data).lookup "obj" = some (.object o)) (hes : s.objects[o.index]? = some es)
    (htexts : ∀ key ∈ presentKeys es, ∃ text, entryValue es key = .string text) (happend : isAppend append = true) :
    (Expr.call (.identifier "cq" s₁) [.expr (.identifier "url" s₂), .expr (.identifier "obj" s₃)] false s₄).Yields
      (level setting rounds (n + 4)) Scope.body (declared s append s₅ s₆) fun v _ =>
        v = .string (appended url ((presentKeys es).map fun key => (key, entryText es key))) := by
  have hcq : Scope.find? (declared s append s₅ s₆) "cq" Scope.body =
      some ⟨.function (.closure (s.opened.addClosure _).1), true⟩ :=
    Scope.find?_declared (S := (s.opened.addClosure _).2) Nat.one_lt_two
  have hcontains : ∀ name, setting.args.contains name = ["url", "obj"].contains name := fun name => by
    rw [Bool.eq_iff_iff, List.contains_iff_mem, List.contains_iff_mem, hargs.mem_iff]
  have hargument : ∀ name ∈ ["url", "obj"], ∀ v, (s.object setting.data).lookup name = some v →
      (setting.lookup name Scope.body).run (declared s append s₅ s₆) = (.ok v, declared s append s₅ s₆) := by
    intro name hname v hv
    refine Setting.lookup_entry (find?_declared_ne ?_) (hcap name (List.mem_append_left _ hname)) ?_ hv
    · rintro rfl
      simp at hname
    · rw [hcontains, List.contains_iff_mem]
      exact hname
  have hclosure : (declared s append s₅ s₆).closures[(s.opened.addClosure ⟨[.ident ⟨"url", s₅⟩, .ident ⟨"obj", s₆⟩],
      .expr append, false, Scope.body⟩).1.index]? =
        some ⟨[(⟨"url", s₅⟩ : Ident), ⟨"obj", s₆⟩].map .ident, .expr append, false, Scope.body⟩ :=
    Store.Continues.getElem?_addClosure s.opened _
  have hglobals : ∀ name ∈ queryGlobals, setting.args.contains name = false := fun name hname => by
    rw [hcontains]
    revert name
    decide
  refine .call (.identifier (Setting.lookup_bound hcq) (.refl _) ⟨_, rfl, ?_⟩)
  refine Eval.values_cons_yields (.identifier (hargument "url" (by decide) _ hurl) (.refl _) ?_)
  refine Eval.values_cons_yields (.identifier (hargument "obj" (by decide) _ hobj) (.refl _) (Eval.values_nil_yields ?_))
  refine callFunction_yields hclosure (append_yields (placed_call ?_ hglobals hes) htexts happend)
  exact fun name hname => hcap name (List.mem_append_right _ hname)

end

/-! ## The start of a run -/

/-- A run starts with the values of its arguments in an object of their own. -/
theorem start_object (entries : List (String × Json)) (journal : Journal) :
    (Store.start (.object entries) journal).2.object (Store.start (.object entries) journal).1 =
        ((Value.ofJsonMembers entries).run (Store.empty journal)).1 ∧
      ((Value.ofJsonMembers entries).run (Store.empty journal)).2.Extends (Store.start (.object entries) journal).2 := by
  exact ⟨Store.object_addObject _ _, Store.extends_addObject _⟩

/-- An argument that is an object of texts and null. -/
theorem start_texts {entries : List (String × Json)} {name : String} (journal : Journal)
    (hvalues : ∀ m ∈ members, m.2 = .null ∨ ∃ text, m.2 = .string text)
    (hentry : entries.lookup name = some (.object members)) :
    ∃ o : ObjectRef,
      ((Store.start (.object entries) journal).2.object (Store.start (.object entries) journal).1).lookup name =
        some (.object o) ∧
      (Store.start (.object entries) journal).2.objects[o.index]? = some (textEntries members) := by
  obtain ⟨hobject, hext⟩ := start_object entries journal
  obtain ⟨t, hlookup, htext⟩ := Value.ofJsonMembers_lookup entries (Store.empty journal) hentry
  rw [Value.ofJson_run_object, ofJsonMembers_texts hvalues] at hlookup htext
  exact ⟨_, hobject ▸ hlookup, hext.objects (htext.objects (Store.getElem?_addObject _))⟩

theorem start_text {entries : List (String × Json)} {name text : String} (journal : Journal)
    (hentry : entries.lookup name = some (.string text)) :
    ((Store.start (.object entries) journal).2.object (Store.start (.object entries) journal).1).lookup name =
        some (.string text) := by
  obtain ⟨t, hlookup, -⟩ := Value.ofJsonMembers_lookup entries (Store.empty journal) hentry
  rw [(start_object entries journal).1]
  exact hlookup

/-- A body whose value is a text returns the text. -/
theorem invoke_text {capabilities : Capabilities} {api : Api} {args : List String} {data : Json} {journal : Journal}
    {block : Block} {text : String} {r : Store} {fuel : Nat} (hfuel : 0 < fuel)
    (hrun : ((⟨capabilities, api, args, (Store.start data journal).1⟩ : Setting).context fuel).runBody block
      (Store.start data journal).2 = .done (.ok (.string text)) r) (hjournal : r.journal = journal) :
    invoke fuel capabilities api args block data journal = .ok ⟨.ok (.string text), journal⟩ := by
  refine invoke_ok.2 ⟨.ok (.string text), r, ?_, rfl, hjournal⟩
  obtain ⟨fuel, rfl⟩ := Nat.exists_eq_succ_of_ne_zero hfuel.ne'
  unfold Comp.run
  rw [hrun]
  rfl

/-- A body declares a function and returns a text. -/
theorem runBody_text {c : Context} {e : Expr} {id : Ident} {ps : List Pattern} {inner : ArrowBody} {text : String}
    {r : Store} (hframes : s.frames = #[])
    (hrun : orUndefined (Eval.link c e Scope.body) (s.opened.withFunction ⟨1⟩ id.name ⟨ps, inner, false, Scope.body⟩) =
      .done (.ok (.string text)) r) (aspan dspan vspan dsspan span : Span) :
    c.runBody (.mk [.declare (.mk .const [.mk (.ident id) (some (.arrow ps inner false aspan)) dspan] vspan) dsspan,
      returning e] span) s = .done (.ok (.string text)) r := by
  have hdeclare : Eval.stmt c (.declare (.mk .const [.mk (.ident id) (some (.arrow ps inner false aspan)) dspan] vspan)
      dsspan) Scope.body s.opened =
        .done (.ok .normal) (s.opened.withFunction ⟨1⟩ id.name ⟨ps, inner, false, Scope.body⟩) := Eval.stmt_arrow ..
  rw [Context.runBody_eq _ _ _ hframes, Eval.stmts_cons, returning, Eval.stmts_return]
  show ((Eval.stmt _ _ _ _).bind _).bind _ = _
  rw [hdeclare]
  show ((orUndefined (Eval.link c e Scope.body) (s.opened.withFunction _ _ _)).bind _).bind _ = _
  rw [hrun]
  rfl

/-- No text in a query can be taken for its signs. The function for queries, called with a text and an object of texts
and null, returns the text if the object holds no texts. Otherwise it returns the text, a question mark, and what is read
back as the texts of the object with their names, in order. -/
theorem cq_reads_back {capabilities : Capabilities} (api : Api) {args : List String}
    {entries members : List (String × Json)} {url : String} (journal : Journal)
    (hfree : ∀ name ∈ ["cq", "Object", "encodeURIComponent", "undefined", "url", "obj"],
      capabilities.contains name = false)
    (hargs : args.Perm ["url", "obj"]) (hurl : entries.lookup "url" = some (.string url))
    (hobj : entries.lookup "obj" = some (.object members)) (hkeys : (members.map (·.1)).Nodup)
    (hvalues : ∀ m ∈ members, m.2 = .null ∨ ∃ text, m.2 = .string text) :
    ∃ body block answer, (Source.ofString "cq(url, obj)").expr = .ok body ∧ settle body capabilities args = .ok block ∧
      (∀ fuel ≥ 4, invoke fuel capabilities api args block (.object entries) journal =
        .ok ⟨.ok (.string answer), journal⟩) ∧
      (textMembers members = [] → answer = url) ∧
      (textMembers members ≠ [] → ∃ suffix, answer = url ++ "?" ++ suffix ∧
        Text.readQuery? suffix = some (textMembers members)) := by
  have hcall := reads_cq.2
  cases hbody : (Source.ofString "cq(url, obj)").expr with
  | error fault =>
      rw [hbody] at hcall
      cases hcall
  | ok body =>
      rw [hbody] at hcall
      obtain ⟨s₁, s₂, s₃, s₄, rfl⟩ := isCall_shape hcall
      have hcq : args.contains "cq" = false := by
        rw [List.contains_eq_mem, decide_eq_false_iff_not, hargs.mem_iff]
        decide
      obtain ⟨d, hd, hsettle⟩ := settle_call s₁ s₂ s₃ s₄ (hfree "cq" (by decide)) hcq
      refine ⟨_, _, appended url (textMembers members), rfl, hsettle, fun fuel hfuel => ?_, fun hnone => ?_,
        fun hsome => ?_⟩
      · obtain ⟨n, rfl⟩ : ∃ n, fuel = n + 4 := ⟨fuel - 4, by omega⟩
        obtain ⟨s₅, s₆, s₇, s₈, s₉, s₁₀, s₁₁, append, happend, rfl⟩ := isAppending_shape hd
        obtain ⟨-, hframes, hjournal, -⟩ := Store.start_spec (.object entries) journal
        obtain ⟨o, ho, hes⟩ := start_texts journal hvalues hobj
        have hnames : ∀ name ∈ ["url", "obj"] ++ queryGlobals, capabilities.contains name = false :=
          fun name hname => hfree name (by revert name; decide)
        obtain ⟨_, r, hrun, hr, rfl⟩ := (call_yields ⟨capabilities, api, args, _⟩ hnames hargs (start_text journal hurl)
          ho hes (presentKeys_text hkeys) happend).eval
        rw [presentKeys_textEntries hkeys] at hrun
        exact invoke_text (Nat.succ_pos _) (runBody_text hframes hrun ..) (hr.journal.trans hjournal)
      · rw [appended, hnone]
        rfl
      · have hentries : (textMembers members).isEmpty = false := List.isEmpty_eq_false_iff.2 hsome
        rw [appended, hentries]
        exact ⟨_, rfl, Text.readQuery?_query hsome⟩

/-- The signs of a query in a text stay parts of the text. -/
theorem cq_reads_back_signs :
    let args := ["obj", "url"]
    let members := [("q", Json.string "a&b=c"), ("page", Json.null)]
    let entries := [("url", Json.string "items"), ("obj", Json.object members)]
    (∀ name ∈ ["cq", "Object", "encodeURIComponent", "undefined", "url", "obj"],
      Capabilities.empty.contains name = false) ∧ args.Perm ["url", "obj"] ∧
    entries.lookup "url" = some (.string "items") ∧ entries.lookup "obj" = some (.object members) ∧
    (members.map (·.1)).Nodup ∧ (∀ m ∈ members, m.2 = .null ∨ ∃ text, m.2 = .string text) ∧
    ∃ body block suffix, (Source.ofString "cq(url, obj)").expr = .ok body ∧ settle body .empty args = .ok block ∧
      invoke defaultFuel .empty ⟨0, []⟩ args block (.object entries) .empty =
        .ok ⟨.ok (.string ("items" ++ "?" ++ suffix)), .empty⟩ ∧
      Text.readQuery? suffix = some [("q", "a&b=c")] := by
  intro args members entries
  have hfree : ∀ name ∈ ["cq", "Object", "encodeURIComponent", "undefined", "url", "obj"],
      Capabilities.empty.contains name = false := by decide
  have hargs : args.Perm ["url", "obj"] := .swap "url" "obj" []
  have hurl : entries.lookup "url" = some (.string "items") := rfl
  have hobj : entries.lookup "obj" = some (.object members) := rfl
  have hvalues : ∀ m ∈ members, m.2 = .null ∨ ∃ text, m.2 = .string text := by
    intro m hm
    rcases List.mem_pair.1 hm with rfl | rfl
    · exact .inr ⟨_, rfl⟩
    · exact .inl rfl
  obtain ⟨body, block, _, hbody, hblock, hinvoke, -, hsuffix⟩ := cq_reads_back ⟨0, []⟩ .empty hfree hargs
    hurl hobj (by decide) hvalues
  obtain ⟨suffix, rfl, hread⟩ := hsuffix nofun
  exact ⟨hfree, hargs, hurl, hobj, by decide, hvalues, body, block, suffix, hbody, hblock,
    hinvoke defaultFuel (by decide), hread⟩

end Prelude

end FieldScript
