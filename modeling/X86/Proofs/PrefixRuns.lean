import X86.Proofs.Prefixes

/-!
What a prefix scan comes to, said of the bytes alone. The bytes at the cursor start with a longest run
of prefixes; the scan stops behind that run, unless the run is too long or the source ends with it,
and what it has found out are a few facts of the run. Runs that agree in these facts and in length can
take each other's place in front of an instruction.
-/

namespace X86

namespace Cursor

/-- Two cursors that have come equally far and have the same bytes ahead. -/
structure Level (c d : Cursor) : Prop where
  abreast : c.Abreast d
  rest_eq : d.rest = c.rest

end Cursor

namespace Decode

theorem Streams.level {m : Decode α} (hm : Streams m) (s : State) {d : Cursor}
    (h : s.cursor.Level d) :
    ∃ d', m (s.on d) = moved d' (m s) ∧ (stop (m s)).cursor.Level d' := by
  obtain ⟨bs, hfollows⟩ := hm s
  have hreads := hfollows.reads
  obtain ⟨d', hd', hrest⟩ := Cursor.exists_reads (h.rest_eq.trans hreads.rest_eq)
  refine ⟨d', hfollows.replays h.abreast hd' fun hcut => ?_, h.abreast.reads hreads hd', hrest⟩
  rw [Cursor.atEnd_iff_rest, hrest]
  exact Cursor.rest_of_atEnd (hfollows.ends hcut)

end Decode

/-- What a state knows of a run of prefix bytes: which of 66, 67 and F0 occur, the last segment
override, the last repeat prefix, and the last byte if it is a REX byte. The flag word says nothing
else; what a repeat prefix is called there depends on the instruction. -/
structure PrefixState.SumsUp (p : PrefixState) (mode : Mode) (run : List UInt8) : Prop where
  operandSize : p.flags &&& PrefixFlag.operandSize ≠ 0 ↔ 0x66 ∈ run
  addressSize : p.flags &&& PrefixFlag.addressSize ≠ 0 ↔ 0x67 ∈ run
  lock : p.flags &&& PrefixFlag.lock ≠ 0 ↔ 0xF0 ∈ run
  segment : p.flags &&& PrefixFlag.anySegment =
    (run.filterMap Segment.ofOverride?).getLast?.elim 0 Segment.flag
  anyRepeat : p.flags &&& PrefixFlag.anyRepeat = 0
  others : p.flags &&& ~~~(PrefixFlag.operandSize ||| PrefixFlag.addressSize ||| PrefixFlag.lock |||
    PrefixFlag.anySegment ||| PrefixFlag.anyRepeat) = 0
  repeated : p.repeated = (run.filterMap Repeat.ofByte?).getLast?
  rex : p.rex.byte = (run.getLast?.filter (isRexByte mode)).getD 0

/-- Two runs of prefix bytes of which a state knows the same. -/
structure RunsAgree (mode : Mode) (run run' : List UInt8) : Prop where
  operandSize : 0x66 ∈ run ↔ 0x66 ∈ run'
  addressSize : 0x67 ∈ run ↔ 0x67 ∈ run'
  lock : 0xF0 ∈ run ↔ 0xF0 ∈ run'
  segment : (run.filterMap Segment.ofOverride?).getLast? =
    (run'.filterMap Segment.ofOverride?).getLast?
  repeated : (run.filterMap Repeat.ofByte?).getLast? = (run'.filterMap Repeat.ofByte?).getLast?
  rex : run.getLast?.filter (isRexByte mode) = run'.getLast?.filter (isRexByte mode)

namespace PrefixState

theorem flags_eq (p : PrefixState) :
    p.flags = PrefixFlag.word p.operandSize p.addressSize p.lock (p.segment.elim 0 Segment.flag) 0 := by
  obtain ⟨o, a, l, g, r, x⟩ := p
  cases g with
  | none => simp [flags, PrefixFlag.word]
  | some g => simp [flags, PrefixFlag.word]

theorem sumsUp_ofBytes (mode : Mode) (run : List UInt8) : (ofBytes mode run).SumsUp mode run := by
  have hflags := flags_eq (ofBytes mode run)
  obtain ⟨ho, ha, hl, hg, hr, -, hothers, -⟩ := PrefixFlag.word_groups (ofBytes mode run).operandSize
    (ofBytes mode run).addressSize (ofBytes mode run).lock _
    (Segment.elim_flag_mem (ofBytes mode run).segment) 0 (by decide)
  rw [← hflags] at ho ha hl hg hr hothers
  have hmem {bit : UInt32} {b : UInt8}
      (h : ((ofBytes mode run).flags &&& bit != 0) = run.contains b) :
      (ofBytes mode run).flags &&& bit ≠ 0 ↔ b ∈ run := by
    rw [← bne_iff_ne, h, List.contains_iff_mem]
  exact ⟨hmem ho, hmem ha, hmem hl, hg, hr, hothers, rfl, rfl⟩

theorem ofBytes_congr {mode : Mode} {run run' : List UInt8} (h : RunsAgree mode run run') :
    ofBytes mode run' = ofBytes mode run := by
  have hcontains {b : UInt8} (hb : b ∈ run ↔ b ∈ run') : run'.contains b = run.contains b := by
    rw [Bool.eq_iff_iff, List.contains_iff_mem, List.contains_iff_mem, hb]
  rw [ofBytes, ofBytes, hcontains h.operandSize, hcontains h.addressSize, hcontains h.lock,
    h.segment, h.repeated, h.rex]

end PrefixState

namespace Decode

open Lookup (Table)
open PrefixState (ofBytes)

theorem scanPrefixes_absorb {mode : Mode} {s : State} {b : UInt8} {p : PrefixState}
    (hb : s.cursor.source.get? s.cursor.position = some b)
    (hp : s.prefixes.absorb? mode b = some p) (budget : Nat) :
    scanPrefixes mode (budget + 1) s =
      scanPrefixes mode budget { s with cursor := s.cursor.advance, prefixes := p } := by
  rw [scanPrefixes, bind_run, read_byte_run, hb]
  simp only [bind_run, get_run, State.on_prefixes, hp]
  rfl

theorem scanPrefixes_run {mode : Mode} {s : State} {c : Cursor} {before run : List UInt8}
    (hs : s.prefixes = ofBytes mode before) (hrun : run.all (isPrefixByte mode) = true)
    (hreads : s.cursor.Reads run c) (budget : Nat) :
    scanPrefixes mode (run.length + budget) s =
      scanPrefixes mode budget { s with cursor := c, prefixes := ofBytes mode (before ++ run) } := by
  induction run generalizing s before with
  | nil => rw [List.length_nil, Nat.zero_add, List.append_nil, ← hs, Cursor.reads_nil.mp hreads]
  | cons b run ih =>
    rw [List.all_cons, Bool.and_eq_true] at hrun
    obtain ⟨hb, hreads⟩ := hreads
    have habsorb : s.prefixes.absorb? mode b = some (ofBytes mode (before ++ [b])) := by
      rw [hs, PrefixState.absorb?_ofBytes hrun.1]
    rw [List.length_cons, Nat.add_right_comm, scanPrefixes_absorb hb habsorb, ih rfl hrun.2 hreads,
      ← List.append_cons]

section Outcome

variable {mode : Mode} {source : Source} {offset : Nat} {run after : List UInt8}
  (hrun : run.all (isPrefixByte mode) = true)

include hrun

theorem scanPrefixes_start (hbytes : (Cursor.ofStart source offset).rest = run ++ after)
    (budget : Nat) :
    ∃ c, (Cursor.ofStart source offset).Reads run c ∧ c.rest = after ∧
      scanPrefixes mode (run.length + budget) { cursor := .ofStart source offset } =
        scanPrefixes mode budget { cursor := c, prefixes := ofBytes mode run } := by
  obtain ⟨c, hreads, hafter⟩ := Cursor.exists_reads hbytes
  refine ⟨c, hreads, hafter, ?_⟩
  have hempty : ({ cursor := .ofStart source offset } : State).prefixes = ofBytes mode [] :=
    (PrefixState.ofBytes_nil mode).symm
  exact scanPrefixes_run hempty hrun hreads budget

theorem scanPrefixes_tooLong (hbytes : (Cursor.ofStart source offset).rest = run ++ after) :
    ∃ s, scanPrefixes mode run.length { cursor := .ofStart source offset } = .error .tooLong s ∧
      s.opcode = {} ∧ s.cursor.consumedBytes = run ∧ s.cursor.consumed = run.length := by
  obtain ⟨c, hreads, -, hscan⟩ := scanPrefixes_start hrun hbytes 0
  exact ⟨_, hscan, rfl, hreads.consumedBytes_eq, hreads.consumed_eq⟩

theorem scanPrefixes_truncated (hbytes : (Cursor.ofStart source offset).rest = run)
    {budget : Nat} (hlength : run.length < budget) :
    ∃ s, scanPrefixes mode budget { cursor := .ofStart source offset } = .error .truncated s ∧
      s.cursor.consumedBytes = run ∧ s.cursor.consumed = run.length := by
  obtain ⟨k, rfl⟩ := Nat.exists_eq_add_of_lt hlength
  rw [← List.append_nil run] at hbytes
  obtain ⟨c, hreads, hafter, hscan⟩ := scanPrefixes_start hrun hbytes (k + 1)
  have hend : c.source.get? c.position = none := Cursor.atEnd_iff_rest.mpr hafter
  refine ⟨{ cursor := c, prefixes := ofBytes mode run }, ?_, hreads.consumedBytes_eq,
    hreads.consumed_eq⟩
  rw [Nat.add_assoc, hscan, scanPrefixes, bind_run, read_byte_run, hend]

theorem scanPrefixes_first {first : UInt8} (hfirst : isPrefixByte mode first = false)
    (hbytes : (Cursor.ofStart source offset).rest = run ++ first :: after) {budget : Nat}
    (hlength : run.length < budget) :
    ∃ s, scanPrefixes mode budget { cursor := .ofStart source offset } = .ok first s ∧
      s.cursor.consumedBytes = run ++ [first] ∧ s.cursor.consumed = run.length + 1 ∧
      s.prefixes = ofBytes mode run := by
  rw [List.append_cons] at hbytes
  obtain ⟨c, hreads, -⟩ := Cursor.exists_reads hbytes
  refine ⟨{ cursor := c, prefixes := ofBytes mode run }, ?_, hreads.consumedBytes_eq, ?_, rfl⟩
  · exact (scanPrefixes_iff [] (PrefixState.ofBytes_nil mode).symm).mpr
      ⟨run, c, hrun, hfirst, hlength, hreads, rfl⟩
  · rw [hreads.consumed_eq, List.length_append, List.length_singleton]

end Outcome

/-- Behind the prefixes a decode goes on with the first byte of the opcode, and streams. -/
theorem exists_behindPrefixes (table : Table) (t : Target) (pc : UInt64) :
    ∃ k : UInt8 → Decode Instruction, (∀ first, Streams (k first)) ∧
      instruction table t pc = scanPrefixes t.mode maxLength >>= k := by
  unfold instruction entry
  rw [bind_assoc]
  refine ⟨_, fun first => ?_, rfl⟩
  refine .bind (.bind (.modify (fun _ => rfl) fun _ _ => rfl) fun _ => .bind (.resolve t _) fun _ => ?_)
    fun e => .bind (.complete t pc e) fun i => .get (fun s d hd => ?_) fun s => ?_
  · split
    · exact .pure _
    · exact .throw (by decide)
  · simp only [State.on_cursor, hd.consumed_eq]
  · exact .ite (.bind (.throw (by decide)) fun _ => .pure i) (.pure i)

section Run

variable {table : Table} {t : Target} {pc : UInt64} {source source' : Source} {offset offset' : Nat}
  {run run' after : List UInt8}

theorem run_fst_of_moved {d : Cursor}
    (h : instruction table t pc { cursor := .ofStart source' offset' } =
      moved d (instruction table t pc { cursor := .ofStart source offset }))
    (hd : (stop (instruction table t pc { cursor := .ofStart source offset })).cursor.Level d) :
    (Decode.run table t source' offset' pc).1 = (Decode.run table t source offset pc).1 := by
  cases hi : instruction table t pc { cursor := .ofStart source offset } with
  | ok i s =>
    rw [hi] at h
    rw [run_of_ok hi, run_of_ok h]
  | error fault s =>
    rw [hi] at h hd
    rw [run_of_error hi, run_of_error h, failure, failure, State.on_cursor, State.on_opcode,
      hd.abreast.consumed_eq]
    rfl

/-- Behind a run of prefixes only what the run amounts to matters, and its length. -/
theorem run_fst_of_runsAgree (hrun : run.all (isPrefixByte t.mode) = true)
    (hrun' : run'.all (isPrefixByte t.mode) = true) (hlength : run'.length = run.length)
    (hagree : RunsAgree t.mode run run') (hshort : run.length ≤ maxLength)
    (hbytes : (Cursor.ofStart source offset).rest = run ++ after)
    (hbytes' : (Cursor.ofStart source' offset').rest = run' ++ after) :
    (Decode.run table t source' offset' pc).1 = (Decode.run table t source offset pc).1 := by
  obtain ⟨k, hk, hinstruction⟩ := exists_behindPrefixes table t pc
  obtain ⟨budget, hbudget⟩ := Nat.exists_eq_add_of_le hshort
  obtain ⟨c, hreads, hafter, hscan⟩ := scanPrefixes_start hrun hbytes budget
  obtain ⟨c', hreads', hafter', hscan'⟩ := scanPrefixes_start hrun' hbytes' budget
  rw [hlength, PrefixState.ofBytes_congr hagree] at hscan'
  rw [← hbudget] at hscan hscan'
  have hlevel : c.Level c' := by
    refine ⟨⟨run.length, ?_, ?_⟩, hafter'.trans hafter.symm⟩
    · rw [hreads.position_eq, hreads.start_eq]
      rfl
    · rw [hreads'.position_eq, hreads'.start_eq, hlength]
      rfl
  have hrest : Streams (scanPrefixes t.mode budget >>= k) := .bind (.scanPrefixes _ _) hk
  obtain ⟨d, hmoved, hd⟩ := hrest.level { cursor := c, prefixes := ofBytes t.mode run } hlevel
  have hstart : instruction table t pc { cursor := .ofStart source offset } =
      (scanPrefixes t.mode budget >>= k) { cursor := c, prefixes := ofBytes t.mode run } := by
    rw [hinstruction, bind_run, bind_run, hscan]
  have hstart' : instruction table t pc { cursor := .ofStart source' offset' } =
      (scanPrefixes t.mode budget >>= k) { cursor := c', prefixes := ofBytes t.mode run } := by
    rw [hinstruction, bind_run, bind_run, hscan']
  refine run_fst_of_moved (d := d) ?_ ?_
  · rw [hstart, hstart']
    exact hmoved
  · rw [hstart]
    exact hd

theorem run_fst_of_tooLong (hrun : run.all (isPrefixByte t.mode) = true)
    (hlong : maxLength < run.length) (hbytes : (Cursor.ofStart source offset).rest = run ++ after) :
    (Decode.run table t source offset pc).1 =
      { offset := pc, length := maxLength, mode := t.mode, error := some .tooLong } := by
  obtain ⟨k, -, hinstruction⟩ := exists_behindPrefixes table t pc
  have hsplit : (Cursor.ofStart source offset).rest =
      run.take maxLength ++ (run.drop maxLength ++ after) := by
    rw [hbytes, ← List.append_assoc, List.take_append_drop]
  have htake : (run.take maxLength).all (isPrefixByte t.mode) = true :=
    List.all_eq_true.mpr fun b hb => List.all_eq_true.mp hrun b (List.mem_of_mem_take hb)
  obtain ⟨s, hscan, hopcode, -, hconsumed⟩ := scanPrefixes_tooLong htake hsplit
  rw [List.length_take, Nat.min_eq_left (Nat.le_of_lt hlong)] at hscan hconsumed
  have hi : instruction table t pc { cursor := .ofStart source offset } = .error .tooLong s := by
    rw [hinstruction, bind_run, hscan]
  rw [run_of_error hi, failure, hopcode, hconsumed]
  rfl

end Run

end Decode

/-- Instead of a run of prefixes another one of the same length may stand, if they agree: the same is
decoded, from other bytes. -/
theorem decodeAt_of_runsAgree {t : Target} {source source' : Source} {offset offset' : Nat}
    {run run' after : List UInt8} (hrun : run.all (isPrefixByte t.mode) = true)
    (hrun' : run'.all (isPrefixByte t.mode) = true) (hlength : run'.length = run.length)
    (hagree : RunsAgree t.mode run run')
    (hbytes : (Cursor.ofStart source offset).rest = run ++ after)
    (hbytes' : (Cursor.ofStart source' offset').rest = run' ++ after) (pc : UInt64) (keep : Bool) :
    decodeAt t source' offset' pc keep =
      { decodeAt t source offset pc keep with
        bytes := (decodeAt t source' offset' pc keep).bytes } := by
  have hsame : (Decode.run instructionTable t source' offset' pc).1 =
      (Decode.run instructionTable t source offset pc).1 := by
    by_cases hshort : run.length ≤ Decode.maxLength
    · exact Decode.run_fst_of_runsAgree hrun hrun' hlength hagree hshort hbytes hbytes'
    · rw [Decode.run_fst_of_tooLong hrun (Nat.lt_of_not_le hshort) hbytes,
        Decode.run_fst_of_tooLong hrun' (hlength ▸ Nat.lt_of_not_le hshort) hbytes']
  cases keep with
  | true =>
    rw [decodeAt_keep, decodeAt_keep, hsame]
    rfl
  | false => rw [decodeAt_drop, decodeAt_drop, hsame]

/-- Let the bytes at the start of a decode begin with a longest run of prefixes. If it has fifteen
bytes or more, the scan fails behind the fifteenth; if the source ends with it, the scan fails there;
otherwise it returns the next byte and sums up the run. Runs of one length that agree may take each
other's place in front of any bytes: the instructions differ in the bytes kept only. -/
theorem scanPrefixes_meets_run (t : Target) (source : Source) (offset : Nat) :
    let bytes := source.slice offset source.length
    let run := bytes.takeWhile (isPrefixByte t.mode)
    let outcome := Decode.scanPrefixes t.mode Decode.maxLength { cursor := .ofStart source offset }
    (15 ≤ run.length → ∃ s, outcome = .error .tooLong s ∧
      s.cursor.consumedBytes = run.take 15 ∧ s.cursor.consumed = 15) ∧
    (run.length < 15 → bytes = run → ∃ s, outcome = .error .truncated s ∧
      s.cursor.consumedBytes = run ∧ s.cursor.consumed = run.length) ∧
    (∀ first after, run.length < 15 → bytes = run ++ first :: after →
      ∃ s, outcome = .ok first s ∧ s.cursor.consumedBytes = run ++ [first] ∧
        s.cursor.consumed = run.length + 1 ∧ s.prefixes.SumsUp t.mode run) ∧
    ∀ (source' : Source) (offset' : Nat) (p p' after : List UInt8) (pc : UInt64) (keep : Bool),
      p.all (isPrefixByte t.mode) = true → p'.all (isPrefixByte t.mode) = true →
      p'.length = p.length → RunsAgree t.mode p p' →
      bytes = p ++ after → source'.slice offset' source'.length = p' ++ after →
      decodeAt t source' offset' pc keep =
        { decodeAt t source offset pc keep with
          bytes := (decodeAt t source' offset' pc keep).bytes } := by
  intro bytes run outcome
  have hrun : run.all (isPrefixByte t.mode) = true := List.all_takeWhile
  refine ⟨?_, ?_, ?_, ?_⟩
  · intro hlong
    have htake : (run.take 15).all (isPrefixByte t.mode) = true :=
      List.all_eq_true.mpr fun b hb => List.all_eq_true.mp hrun b (List.mem_of_mem_take hb)
    have hsplit : bytes = run.take 15 ++ (run.drop 15 ++ bytes.dropWhile (isPrefixByte t.mode)) := by
      rw [← List.append_assoc, List.take_append_drop, List.takeWhile_append_dropWhile]
    obtain ⟨s, hscan, -, hbytes, hconsumed⟩ := Decode.scanPrefixes_tooLong htake hsplit
    rw [List.length_take, Nat.min_eq_left hlong] at hscan hconsumed
    exact ⟨s, hscan, hbytes, hconsumed⟩
  · intro hshort hend
    exact Decode.scanPrefixes_truncated hrun hend hshort
  · intro first after hshort hsplit
    have hstop : (first :: after).takeWhile (isPrefixByte t.mode) = [] := by
      have happend : (run ++ first :: after).takeWhile (isPrefixByte t.mode) =
          run ++ (first :: after).takeWhile (isPrefixByte t.mode) :=
        List.takeWhile_append_of_pos (List.all_eq_true.mp hrun)
      rw [← hsplit] at happend
      exact List.self_eq_append_right.mp happend
    have hfirst : isPrefixByte t.mode first = false := by
      rw [← Bool.not_eq_true]
      intro hmore
      rw [List.takeWhile_cons_of_pos hmore] at hstop
      cases hstop
    obtain ⟨s, hscan, hbytes, hconsumed, hprefixes⟩ :=
      Decode.scanPrefixes_first hrun hfirst hsplit hshort
    exact ⟨s, hscan, hbytes, hconsumed, hprefixes ▸ PrefixState.sumsUp_ofBytes t.mode run⟩
  · intro source' offset' p p' after pc keep hp hp' hlength hagree hbytes hbytes'
    exact decodeAt_of_runsAgree hp hp' hlength hagree hbytes hbytes' pc keep

/-- In front of the DS override that counts and of REX, lock may move up and a second 66 may stand for
a CS override that does not count. -/
theorem scanPrefixes_meets_run_locked :
    let t : Target := ⟨.bits64, .any⟩
    let s := Source.ofArray #[0x2E, 0x66, 0xF0, 0x3E, 0x48, 0x01, 0x08]
    let s' := Source.ofArray #[0xF0, 0x66, 0x66, 0x3E, 0x48, 0x01, 0x08]
    RunsAgree t.mode [0x2E, 0x66, 0xF0, 0x3E, 0x48] [0xF0, 0x66, 0x66, 0x3E, 0x48] ∧
      (∃ state, Decode.scanPrefixes t.mode Decode.maxLength { cursor := .ofStart s 0 } =
          .ok 0x01 state ∧ state.cursor.consumed = 6 ∧
        state.prefixes.SumsUp t.mode [0x2E, 0x66, 0xF0, 0x3E, 0x48]) ∧
      ∀ pc, decodeAt t s' 0 pc true =
        { decodeAt t s 0 pc true with bytes := (decodeAt t s' 0 pc true).bytes } := by
  intro t s s'
  have hagree : RunsAgree t.mode [0x2E, 0x66, 0xF0, 0x3E, 0x48] [0xF0, 0x66, 0x66, 0x3E, 0x48] :=
    ⟨by decide, by decide, by decide, by decide, by decide, by decide⟩
  obtain ⟨-, -, hok, hswap⟩ := scanPrefixes_meets_run t s 0
  obtain ⟨state, hscan, -, hconsumed, hsums⟩ := hok 0x01 [0x08] (by decide) (by decide)
  refine ⟨hagree, ⟨state, hscan, hconsumed, hsums⟩, fun pc => ?_⟩
  exact hswap s' 0 _ _ [0x01, 0x08] pc true (by decide) (by decide) (by decide) hagree (by decide)
    (by decide)

end X86
