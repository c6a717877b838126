import BinaryPoint.Proofs.Program.Spelled
import BinaryPoint.Proofs.Program.Tail
import BinaryPoint.Proofs.Program.Totality

/-! # The programs that are accepted

A text whose characters and numbers are in order is accepted, without a mismatch, just if its
tokens are a program by the rules of the grammar. It is then read as the program that the rules
give.

* `Program.derives_of_ofStream`: what is read without a mismatch is a program;
* `Program.ofStream_of_derives`: a program is read without a mismatch;
* `Program.parse_accepts_iff`: both, for texts.
-/

namespace BinaryPoint

open BinaryPoint.Parser (Reads Takes Anywhere)

/-! ## Declarations on their lines -/

theorem Decl.Derives.exists_cons {ts : List Token} {d : Decl} (h : Decl.Derives ts d) :
    ∃ t us, ts = t :: us ∧ t.kind = .const := by
  obtain ⟨hfirst, -⟩ := h
  exact ⟨_, _, rfl, hfirst⟩

namespace Program

/-- Declarations with line breaks before and after them. -/
def Spread (ts : List Token) (ds : List Decl) : Prop :=
  ∃ before us after, ts = before ++ (us ++ after) ∧ Breaks before ∧ DerivesDecls us ds ∧
    Breaks after

/-- Whether a stream is at the end of a line. -/
theorem endsHere_iff {s : Stream} :
    endsHere s ↔ s.pending = [] ∨ ∃ t ts, s.pending = t :: ts ∧ t.kind = .newline := by
  rcases s with ⟨_ | ⟨t, ts⟩, e⟩ <;> simp [endsHere, Stream.atEnd, Stream.current]

/-- Nothing is skipped at the end of a line. -/
theorem skipLine_of_endsHere {s : Stream} (h : endsHere s) : s.skipLine = s := by
  rcases s with ⟨ts, e⟩
  rcases endsHere_iff.mp h with hnil | ⟨t, ts', hcons, ht⟩
  · obtain rfl : ts = [] := hnil
    rfl
  · obtain rfl : ts = t :: ts' := hcons
    exact congrArg (Stream.mk · e) (List.dropWhile_cons_of_neg (by simpa using ht))

/-! ## Declarations of any text -/

/-- Each declaration that is read from a stream is derived from tokens of it, in a row. -/
theorem derives_of_parseLines {limit : Nat} :
    ∀ (lines : Nat) (s : Stream) (o : Statements), s.ending.kind = .endOfText →
      parseLines limit lines s = .ok o →
      ∀ d ∈ o.decls, ∃ ts, ts <:+: s.pending ∧ Decl.Derives ts d
  | 0, _, _, _, h => by
    cases h
    exact fun d hd => absurd hd List.not_mem_nil
  | lines + 1, s, o, hend, h => by
    have hskip : s.skipNewlines.pending <:+ s.pending := List.dropWhile_suffix _
    have hend' : s.skipNewlines.ending.kind = .endOfText := hend
    rw [parseLines] at h
    dsimp only at h
    generalize s.skipNewlines = start at h hskip hend'
    -- the other declarations stand behind what was taken from the front
    have hothers : ∀ (ts : List Token) (s' : Stream) (o' : Statements), start = s'.prepend ts →
        parseLines limit lines s'.skipLine = .ok o' →
        ∀ d ∈ o'.decls, ∃ us, us <:+: s.pending ∧ Decl.Derives us d := by
      rintro ts s' o' rfl ho' d hd
      obtain ⟨us, hus, hd⟩ := derives_of_parseLines lines s'.skipLine o' hend' ho' d hd
      have hsuffix : s'.skipLine.pending <:+ s.pending :=
        (List.dropWhile_suffix _).trans ((List.suffix_append ts s'.pending).trans hskip)
      exact ⟨us, hus.trans hsuffix.isInfix, hd⟩
    -- at the end there is nothing to read
    split at h
    · cases h
      exact fun d hd => absurd hd List.not_mem_nil
    -- a line that is no declaration is skipped
    split at h
    · obtain ⟨o', ho', rfl⟩ := map_eq_ok.mp h
      exact hothers [] start o' rfl ho'
    obtain ⟨hreturns, hfails⟩ := Decl.reads_parse limit start trivial hend'
    split at h
    · next d s' hrun =>
      -- a declaration counts even if something stands behind it
      obtain ⟨ts, hstart, -, hd⟩ := hreturns d s' hrun
      have hts : ts <:+: s.pending := by
        have hprefix : ts <+: start.pending := hstart ▸ List.prefix_append ts s'.pending
        exact hprefix.isInfix.trans hskip.isInfix
      split at h
      all_goals
        obtain ⟨o', ho', rfl⟩ := map_eq_ok.mp h
        exact List.forall_mem_cons.mpr ⟨⟨ts, hts, hd⟩, hothers ts s' o' hstart ho'⟩
    · next m s' hrun =>
      -- a declaration that is not in order is skipped from where it broke off
      obtain ⟨ts, hstart⟩ := hfails _ s' hrun
      obtain ⟨o', ho', rfl⟩ := map_eq_ok.mp h
      exact hothers ts s' o' hstart ho'
    · cases h

/-- A header, in order or not, is taken from the front. -/
theorem suffix_of_parseName {s rest : Stream} {name : Option String} {found : List Mismatch}
    (hend : s.ending.kind = .endOfText) (h : parseName s = .ok (name, found, rest)) :
    rest.pending <:+ s.pending ∧ rest.ending.kind = .endOfText := by
  have hskip : s.skipNewlines.pending <:+ s.pending := List.dropWhile_suffix _
  have hend' : s.skipNewlines.ending.kind = .endOfText := hend
  rw [parseName] at h
  generalize s.skipNewlines = start at h hskip hend'
  obtain ⟨hreturns, hfails⟩ := reads_parseHeader start trivial hend'
  split at h
  · split at h
    · next name s' hrun =>
      -- a header in order: what is left stands behind its tokens
      obtain ⟨ts, rfl, -⟩ := hreturns name s' hrun
      cases h
      exact ⟨(List.suffix_append ts rest.pending).trans hskip, hend'⟩
    · next m s' hrun =>
      -- a header that breaks off: the rest of its line goes too
      obtain ⟨ts, rfl⟩ := hfails _ s' hrun
      cases h
      have hline : s'.skipLine.pending <:+ s'.pending := List.dropWhile_suffix _
      exact ⟨hline.trans ((List.suffix_append ts s'.pending).trans hskip), hend'⟩
    · cases h
  · cases h
    exact ⟨hskip, hend'⟩

/-- Each declaration of a text is derived from tokens of it, in a row, whatever was reported. -/
theorem derives_of_parse {source file : String} {p : Program} {found : List Diagnostic}
    (h : parse source file = .ok (p, found)) :
    ∀ d ∈ p.statements, ∃ ts, ts <:+: (Lexed.ofText source file).tokens ∧ Decl.Derives ts d := by
  obtain ⟨mismatches, hstream, -⟩ := parse_eq_ok.mp h
  have hend : (Stream.ofLexed (Lexed.ofText source file)).ending.kind = .endOfText := rfl
  rw [ofStream] at hstream
  obtain ⟨⟨name, mismatches, rest⟩, hname, hstream⟩ := bind_eq_ok.mp hstream
  obtain ⟨lines, hlines, hprogram⟩ := bind_eq_ok.mp hstream
  cases hprogram
  obtain ⟨hsuffix, hrest⟩ := suffix_of_parseName hend hname
  intro d hd
  obtain ⟨ts, hts, hderives⟩ := derives_of_parseLines _ rest lines hrest hlines d hd
  exact ⟨ts, hts.trans hsuffix.isInfix, hderives⟩

/-! ## Sound -/

/-- A declaration that ends its line, in front of declarations. -/
theorem Spread.cons {ts : List Token} {d : Decl} {ds : List Decl} {s : Stream}
    (hd : Decl.Derives ts d) (hs : endsHere s) (h : Spread s.pending ds) :
    Spread (ts ++ s.pending) (d :: ds) := by
  obtain ⟨before, us, after, hpending, hbefore, hus, hafter⟩ := h
  cases hus with
  | none =>
    -- nothing but line breaks follows
    refine ⟨[], ts ++ [], before ++ after, ?_, nofun, .some hd .done, ?_⟩
    · simpa using hpending
    · exact List.forall_mem_append.mpr ⟨hbefore, hafter⟩
  | @some us rest d' ds hd' hrest =>
    -- the next declaration is on another line, since this one ends its line
    have hline : before ≠ [] := by
      rintro rfl
      obtain ⟨t, us', rfl, ht⟩ := hd'.exists_cons
      rcases endsHere_iff.mp hs with hnil | ⟨t', ts', hcons, ht'⟩
      · rw [hpending] at hnil
        cases hnil
      · rw [hpending] at hcons
        cases hcons
        exact nomatch ht.symm.trans ht'
    refine ⟨[], ts ++ (before ++ (us ++ rest)), after, ?_, nofun,
      .some hd (.more hbefore hline hd' hrest), hafter⟩
    simp [hpending]

/-- Lines that are read without a mismatch hold declarations. -/
theorem spread_of_parseLines {limit : Nat} :
    ∀ (lines : Nat) (s : Stream) (o : Statements), s.ending.kind = .endOfText →
      s.pending.length < lines → parseLines limit lines s = .ok o → o.mismatches = [] →
      Spread s.pending o.decls
  | 0, _, _, _, hlines, _, _ => absurd hlines (Nat.not_lt_zero _)
  | lines + 1, s, o, hend, hlines, h, hnone => by
    obtain ⟨before, hs, -, hbefore⟩ := (Reads.skipNewlines s trivial hend).1 () _ rfl
    have hpending : s.pending = before ++ s.skipNewlines.pending := congrArg Stream.pending hs
    have hlength := congrArg List.length hpending
    rw [List.length_append] at hlength
    rcases hskip : s.skipNewlines with ⟨_ | ⟨t, ts⟩, e⟩
    · rw [parseLines_end (by rw [hskip])] at h
      cases h
      rw [hpending, hskip]
      exact ⟨before, [], [], rfl, hbefore, .none, nofun⟩
    rw [hskip] at hpending hlength
    have he : e.kind = .endOfText := by
      rw [← hend, ← show s.skipNewlines.ending = s.ending from rfl, hskip]
    -- a line is a declaration and no more, or else it leaves a mismatch
    by_cases hconst : t.kind = .const
    · rw [parseLines_const hskip hconst] at h
      split at h
      · next d s' hrun =>
        obtain ⟨us, hs', -, hd⟩ := (Decl.reads_parse limit _ trivial he).1 d s' hrun
        obtain ⟨o', ho', rfl⟩ := map_eq_ok.mp h
        by_cases hends : endsHere s'
        · rw [if_pos hends] at hnone ⊢
          have hpending' : t :: ts = us ++ s'.pending := congrArg Stream.pending hs'
          have hending' : e = s'.ending := congrArg Stream.ending hs'
          obtain ⟨t', us', rfl, -⟩ := hd.exists_cons
          have hlength' := congrArg List.length hpending'
          simp only [List.length_append, List.length_cons] at hlength hlength'
          rw [skipLine_of_endsHere hends] at ho'
          have hmore := spread_of_parseLines lines s' o' (hending' ▸ he) (by omega) ho' hnone
          obtain ⟨before', us, after, hall, hbefore', hus, hafter⟩ := Spread.cons hd hends hmore
          refine ⟨before ++ before', us, after, ?_, ?_, hus, hafter⟩
          · rw [hpending, hpending', hall, List.append_assoc]
          · exact List.forall_mem_append.mpr ⟨hbefore, hbefore'⟩
        · rw [if_neg hends] at hnone
          cases hnone
      · obtain ⟨o', -, rfl⟩ := map_eq_ok.mp h
        cases hnone
      · cases h
    · rw [parseLines_junk hskip hconst] at h
      obtain ⟨o', -, rfl⟩ := map_eq_ok.mp h
      cases hnone

/-- A header that is read without a mismatch is in order. -/
theorem derives_of_parseName {s rest : Stream} {name : Option String}
    (hend : s.ending.kind = .endOfText) (h : parseName s = .ok (name, [], rest)) :
    ∃ before header, s = rest.prepend (before ++ header) ∧ Breaks before ∧
      DerivesHeader header name := by
  obtain ⟨before, hs, -, hbefore⟩ := (Reads.skipNewlines s trivial hend).1 () _ rfl
  have hend' : s.skipNewlines.ending.kind = .endOfText := hend
  rw [parseName] at h
  split at h
  · split at h
    · next name s' hrun =>
      -- the line breaks before it and its own tokens are all that was taken
      cases h
      obtain ⟨header, hs', -, hheader⟩ := (reads_parseHeader _ trivial hend').1 name rest hrun
      refine ⟨before, header, ?_, hbefore, hheader⟩
      rw [hs, hs', Stream.prepend_append]
    · cases h
    · cases h
  · cases h
    exact ⟨before, [], by rw [List.append_nil]; exact hs, hbefore, .absent⟩

/-- What is read without a mismatch is a program. -/
theorem derives_of_ofStream {s : Stream} {p : Program} (hend : s.ending.kind = .endOfText)
    (h : ofStream s = .ok (p, [])) : Derives (s.pending ++ [s.ending]) p.name p.statements := by
  rw [ofStream] at h
  obtain ⟨⟨name, found, rest⟩, hname, h⟩ := bind_eq_ok.mp h
  obtain ⟨o, ho, h⟩ := bind_eq_ok.mp h
  obtain ⟨hp, hfound⟩ := Prod.mk.inj (Except.ok.inj h)
  -- no mismatch in the header, and none in the lines
  obtain ⟨rfl, hnone⟩ := List.append_eq_nil_iff.mp hfound
  subst hp
  obtain ⟨before, header, rfl, hbefore, hheader⟩ := derives_of_parseName hend hname
  have hlines : rest.pending.length < (rest.prepend (before ++ header)).limit := by
    simp only [Stream.limit, Stream.prepend, List.length_append]
    omega
  obtain ⟨between, ts, after, hall, hbetween, hts, hafter⟩ :=
    spread_of_parseLines _ rest o hend hlines ho hnone
  have hderives := Derives.intro hbefore hheader hbetween hts hafter hend
  simpa only [Stream.prepend, hall, List.append_assoc] using hderives

/-! ## Complete -/

/-- The declarations behind the first one start on a new line. -/
theorem DerivesMore.endsHere {ts after : List Token} {ds : List Decl} (h : DerivesMore ts ds)
    (hafter : Breaks after) (e : Token) : endsHere ⟨ts ++ after, e⟩ := by
  rw [endsHere_iff]
  cases h with
  | done =>
    rcases after with _ | ⟨t, after⟩
    · exact .inl rfl
    · exact .inr ⟨t, after, rfl, hafter t (.head _)⟩
  | @more before _ _ _ _ hbefore hline =>
    obtain ⟨t, us, rfl⟩ := List.exists_cons_of_ne_nil hline
    exact .inr ⟨t, _, rfl, hbefore t (.head _)⟩

theorem DerivesMore.length_le {ts : List Token} {ds : List Decl} (h : DerivesMore ts ds) :
    ds.length ≤ ts.length := by
  induction h with
  | done => exact Nat.le_refl _
  | more _ _ hd _ ih =>
    obtain ⟨t, us, rfl, -⟩ := hd.exists_cons
    simp only [List.length_append, List.length_cons]
    omega

/-- Nothing goes on with a declaration at the end of its line. -/
theorem endsBefore_of_endsHere {s : Stream} (hend : s.ending.kind = .endOfText) (h : endsHere s) :
    Decl.EndsBefore s.current.kind := by
  have hkind : s.current.kind = .newline ∨ s.current.kind = .endOfText := by
    rcases s with ⟨ts, e⟩
    rcases endsHere_iff.mp h with hnil | ⟨t, ts', hcons, ht⟩
    · obtain rfl : ts = [] := hnil
      exact .inr hend
    · obtain rfl : ts = t :: ts' := hcons
      exact .inl ht
  rcases hkind with h | h <;> rw [h] <;> exact ⟨⟨rfl, rfl⟩, nofun⟩

/-- A declaration on lines of its own is read, and then the lines behind it. -/
theorem parseLines_decl {limit lines : Nat} {before ts : List Token} {d : Decl} {s : Stream}
    (hbefore : Breaks before) (hd : Decl.Derives ts d) (hconverts : ∀ t ∈ ts, t.Converts)
    (hlimit : ts.length ≤ limit) (hend : s.ending.kind = .endOfText) (hs : endsHere s) :
    parseLines limit (lines + 1) ((s.prepend ts).prepend before) =
      (parseLines limit lines s).map (.afterDecl d) := by
  obtain ⟨t, us, rfl, ht⟩ := hd.exists_cons
  have hskip : ((s.prepend (t :: us)).prepend before).skipNewlines =
      ⟨t :: (us ++ s.pending), s.ending⟩ := by
    rw [Stream.skipNewlines_prepend hbefore]
    exact Stream.skipNewlines_eq_self (by rw [Stream.current_prepend_cons, ht]; decide)
  have hrun : (Decl.parse limit).run ⟨t :: (us ++ s.pending), s.ending⟩ = .ok d s :=
    hd.takes hconverts hlimit (endsBefore_of_endsHere hend hs)
  rw [parseLines_const hskip ht, hrun]
  simp only [if_pos hs, skipLine_of_endsHere hs]

theorem DerivesMore.parseLines {ts after : List Token} {ds : List Decl} (h : DerivesMore ts ds)
    (hafter : Breaks after) {e : Token} (hend : e.kind = .endOfText)
    (hconverts : ∀ t ∈ ts, t.Converts) {limit lines : Nat} (hlimit : ts.length ≤ limit)
    (hlines : ds.length ≤ lines) :
    parseLines limit lines ⟨ts ++ after, e⟩ = .ok ⟨ds, []⟩ := by
  induction h generalizing lines with
  | done =>
    refine parseLines_end ?_
    rw [List.nil_append, Stream.skipNewlines_breaks hafter]
  | @more before us rest d ds hbefore hline hd hrest ih =>
    simp only [List.forall_mem_append, List.length_append] at hconverts hlimit
    obtain ⟨lines, rfl⟩ := Nat.exists_eq_add_of_lt (Nat.lt_of_lt_of_le (Nat.succ_pos _) hlines)
    rw [Nat.zero_add] at hlines ⊢
    -- the line is read in front of the others, which follow by induction
    have hstream : Stream.mk (before ++ (us ++ rest) ++ after) e =
        (Stream.prepend us ⟨rest ++ after, e⟩).prepend before := by
      simp only [Stream.prepend, List.append_assoc]
    rw [hstream, parseLines_decl hbefore hd hconverts.2.1 (by omega) hend
      (hrest.endsHere hafter e)]
    rw [ih hconverts.2.2 (by omega) (Nat.le_of_succ_le_succ hlines)]
    rfl

theorem DerivesDecls.parseLines {ts after : List Token} {ds : List Decl} (h : DerivesDecls ts ds)
    (hafter : Breaks after) {e : Token} (hend : e.kind = .endOfText)
    (hconverts : ∀ t ∈ ts, t.Converts) {limit lines : Nat} (hlimit : ts.length ≤ limit)
    (hlines : ts.length < lines) :
    parseLines limit lines ⟨ts ++ after, e⟩ = .ok ⟨ds, []⟩ := by
  cases h with
  | none => exact DerivesMore.done.parseLines hafter hend nofun (Nat.zero_le _) (Nat.zero_le _)
  | @some us rest d ds hd hrest =>
    simp only [List.forall_mem_append, List.length_append] at hconverts hlimit hlines
    obtain ⟨lines, rfl⟩ := Nat.exists_eq_add_of_lt (Nat.lt_of_le_of_lt (Nat.zero_le _) hlines)
    rw [Nat.zero_add] at hlines ⊢
    have hlength := hrest.length_le
    -- the first declaration needs no line break before it
    have hstream : Stream.mk (us ++ rest ++ after) e =
        (Stream.prepend us ⟨rest ++ after, e⟩).prepend [] := by
      simp only [Stream.prepend, List.append_assoc, List.nil_append]
    rw [hstream, parseLines_decl (List.forall_mem_nil _) hd hconverts.1 (by omega) hend
      (hrest.endsHere hafter e)]
    rw [hrest.parseLines hafter hend hconverts.2 (by omega) (by omega)]
    rfl

/-- What stands behind the header does not start with another one. -/
theorem DerivesDecls.current {ts after : List Token} {ds : List Decl} (h : DerivesDecls ts ds)
    (hafter : Breaks after) {e : Token} (hend : e.kind = .endOfText) :
    (Stream.mk (ts ++ after) e).skipNewlines.current.kind ∈ [TokenKind.const, .endOfText] := by
  cases h with
  | none =>
    rw [List.nil_append, Stream.skipNewlines_breaks hafter]
    exact List.mem_cons_of_mem _ (List.mem_singleton.mpr hend)
  | some hd hrest =>
    obtain ⟨t, us, rfl, ht⟩ := hd.exists_cons
    rw [Stream.skipNewlines_eq_self]
    · exact List.mem_cons.mpr (.inl ht)
    · rw [List.cons_append, List.cons_append, Stream.current, List.headD_cons, ht]
      decide

/-- A header is read, and the statements are left. -/
theorem parseName_of_derives {before header : List Token} {name : Option String} {s : Stream}
    (hbefore : Breaks before) (hheader : DerivesHeader header name)
    (hs : s.skipNewlines.current.kind ≠ .program) :
    ∃ rest : Stream, parseName ((s.prepend header).prepend before) = .ok (name, [], rest) ∧
      rest.skipNewlines = s.skipNewlines := by
  rw [parseName, Stream.skipNewlines_prepend hbefore]
  cases hheader with
  | absent =>
    rw [Stream.prepend_nil, if_neg hs]
    exact ⟨_, rfl, congrArg (Stream.mk · s.ending) (List.dropWhile_idempotent _ _)⟩
  | @present first name colon hfirst hname hcolon =>
    rw [Stream.skipNewlines_eq_self]
    · have hrun : parseHeader.run (s.prepend [first, name, colon]) = .ok name.lexeme s :=
        (DerivesHeader.present hfirst hname hcolon).takes
      rw [Stream.current_prepend_cons, if_pos hfirst, hrun]
      exact ⟨s, rfl, rfl⟩
    · rw [Stream.current_prepend_cons, hfirst]
      decide

/-- A program is read without a mismatch. -/
theorem ofStream_of_derives {s : Stream} {name : Option String} {ds : List Decl}
    (hconverts : ∀ t ∈ s.pending, t.Converts) (h : Derives (s.pending ++ [s.ending]) name ds) :
    ofStream s = .ok (⟨name, ds, some s.current.place⟩, []) := by
  rcases s with ⟨tokens, e⟩
  generalize hall : tokens ++ [e] = row at h
  obtain @⟨before, header, between, ts, after, ending, _, _, hbefore, hheader, hbetween, hts,
    hafter, hending⟩ := h
  -- the parts of the derivation are those of the stream, up to the token at its end
  obtain ⟨rfl, he⟩ : tokens = before ++ (header ++ (between ++ (ts ++ after))) ∧ [e] = [ending] :=
    List.append_inj' (by simpa using hall) rfl
  obtain rfl := List.singleton_inj.mp he
  have hstart : (Stream.mk (before ++ (header ++ (between ++ (ts ++ after)))) e) =
      ((Stream.prepend between ⟨ts ++ after, e⟩).prepend header).prepend before := rfl
  have hskip := Stream.skipNewlines_prepend (s := ⟨ts ++ after, e⟩) hbetween
  -- where no header stands, the first declaration does not look like one
  obtain ⟨rest, hname, hrest⟩ := parseName_of_derives hbefore hheader
    (s := Stream.prepend between ⟨ts ++ after, e⟩) (by
      have hcurrent := hts.current hafter hending
      rw [hskip]
      intro hprogram
      rw [hprogram] at hcurrent
      exact absurd hcurrent (by decide))
  simp only [List.forall_mem_append] at hconverts
  have hlimit : ts.length < Stream.limit ⟨before ++ (header ++ (between ++ (ts ++ after))), e⟩ := by
    simp only [Stream.limit, List.length_append]
    omega
  -- the declarations are all that is left behind the header
  have hlines := hts.parseLines hafter hending hconverts.2.2.2.1 hlimit.le hlimit
  rw [ofStream, hstart, hname, ok_bind]
  dsimp only
  rw [parseLines_congr (hrest.trans hskip), ← hstart, hlines]
  rfl

/-! ## Texts -/

/-- A text whose numbers can be read is parsed. -/
theorem exists_ofStream {s : Stream} (hend : s.ending.kind = .endOfText)
    (hconverts : ∀ t ∈ s.pending, t.Converts) : ∃ p found, ofStream s = .ok (p, found) := by
  rcases ofStream_recovers s.pending hend with ⟨⟨p, found⟩, h⟩ | ⟨t, ht, hreal, hnone, -⟩
  · exact ⟨p, found, h⟩
  · exact nomatch hnone.symm.trans ((hconverts t ht).2 hreal)

/-- **The parser accepts the grammar.** A text in which every character belongs to a token and
every number can be read has no diagnostics just if its tokens are a program by the grammar;
and then the name and the declarations are those of the grammar. -/
theorem parse_accepts_iff {source file : String}
    (hlex : (Lexed.ofText source file).diagnostics = [])
    (hconverts : ∀ t ∈ (Lexed.ofText source file).tokens, t.Converts) :
    ∃ p found, parse source file = .ok (p, found) ∧
      (found = [] ↔ ∃ name ds, Derives (Lexed.ofText source file).row name ds) ∧
      ∀ name ds, Derives (Lexed.ofText source file).row name ds →
        p.name = name ∧ p.statements = ds := by
  have hend : (Stream.ofLexed (Lexed.ofText source file)).ending.kind = .endOfText := rfl
  obtain ⟨p, mismatches, hstream⟩ := exists_ofStream hend hconverts
  -- what the grammar derives is what was read, and nothing was found wrong with it
  have hread : ∀ name ds, Derives (Lexed.ofText source file).row name ds →
      mismatches = [] ∧ p.name = name ∧ p.statements = ds := by
    intro name ds hderives
    have h := ofStream_of_derives (s := .ofLexed (Lexed.ofText source file)) hconverts hderives
    rw [hstream] at h
    obtain ⟨rfl, rfl⟩ := Prod.mk.inj (Except.ok.inj h)
    exact ⟨rfl, rfl, rfl⟩
  refine ⟨p, _, parse_eq_ok.mpr ⟨mismatches, hstream, rfl⟩, ?_, ?_⟩
  · rw [hlex, List.nil_append, List.map_eq_nil_iff]
    constructor
    · rintro rfl
      exact ⟨p.name, p.statements, derives_of_ofStream hend hstream⟩
    · rintro ⟨name, ds, hderives⟩
      exact (hread name ds hderives).1
  · intro name ds hderives
    exact (hread name ds hderives).2

/-- A header that shares its line, and a list over several lines. -/
theorem parse_accepts_list :
    let source := "program p: const A = -(1 + 2) * 3 within 0.5\n\nconst B = [\n1,\nA,\n]"
    let lexed := Lexed.ofText source "p"
    lexed.diagnostics = [] ∧ (∀ t ∈ lexed.tokens, t.Converts) ∧
      ∃ p found, parse source "p" = .ok (p, found) ∧
        (found = [] ↔ ∃ name ds, Derives lexed.row name ds) ∧
        ∀ name ds, Derives lexed.row name ds → p.name = name ∧ p.statements = ds := by
  intro source lexed
  have hlex : lexed.diagnostics = [] := by decide +kernel
  have hconverts : ∀ t ∈ lexed.tokens, t.Converts := by decide +kernel
  exact ⟨hlex, hconverts, parse_accepts_iff hlex hconverts⟩

end Program

end BinaryPoint
