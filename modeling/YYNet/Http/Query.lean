/-
This file proves which arguments a request gets from the query of its target.

A query is a list of segments with `&` between them, and a segment with `=` binds
the text before its first `=` to the text behind it. `parseUrlParams` does not
split the query into segments: it looks for the next `=` from where it is, and
only then for the next `&`. A segment without `=` becomes a part of the next key.

So the arguments are what the segments bind, if and only if no segment with `=`
stands behind one without.
-/

import YYNet.Http.Grammar

namespace YYNet

open Checked

/-! ### What a query means -/

/-- What a segment with `=` binds. -/
def binding (segment : List UInt8) : List UInt8 × List UInt8 :=
  (segment.takeWhile (· ≠ 61), (segment.dropWhile (· ≠ 61)).tail)

/-- The bindings of the segments that have `=`. -/
def bindings (segments : List (List UInt8)) : List (List UInt8 × List UInt8) :=
  (segments.filter fun segment => segment.contains 61).map binding

/-- What the arguments of a query should be; later bindings win. -/
def queryMeaning (query : List UInt8) : StringMap :=
  OrderedMap.empty.setAll (bindings (query.splitOn 38))

/-- No segment with `=` is behind one without. -/
def FlagsLast (segments : List (List UInt8)) : Prop :=
  segments.Pairwise fun earlier later => 61 ∈ later → 61 ∈ earlier

/-- A query is one segment, or a segment and what is behind the `&`. -/
theorem segments_cases (query : List UInt8) :
    (38 ∉ query ∧ query.splitOn 38 = [query]) ∨
      ∃ segment rest, query = segment ++ 38 :: rest ∧ 38 ∉ segment ∧
        query.splitOn 38 = segment :: rest.splitOn 38 := by
  by_cases separated : 38 ∈ query
  · obtain ⟨segment, rest, rfl, clear⟩ := List.eq_append_cons_of_mem separated
    exact .inr ⟨segment, rest, rfl, clear, List.splitOn_append_cons_self_of_not_mem clear rest⟩
  · exact .inl ⟨separated, List.splitOn_eq_singleton separated⟩

/-- A query has `=` when one of its segments has. -/
theorem mem_segments_iff (query : List UInt8) :
    61 ∈ query ↔ ∃ segment ∈ query.splitOn 38, 61 ∈ segment := by
  induction size : query.length using Nat.strong_induction_on generalizing query with
  | _ size inductionHypothesis =>
    rcases segments_cases query with ⟨-, split⟩ | ⟨segment, rest, rfl, -, split⟩
    · simp [split]
    · have later := inductionHypothesis rest.length
        (by rw [← size, List.length_append, List.length_cons]; omega) rest rfl
      simp [split, later]

/-- No segment has `&`. -/
theorem not_mem_segments (query : List UInt8) : ∀ segment ∈ query.splitOn 38, 38 ∉ segment := by
  induction size : query.length using Nat.strong_induction_on generalizing query with
  | _ size inductionHypothesis =>
    rcases segments_cases query with ⟨clear, split⟩ | ⟨segment, rest, rfl, clear, split⟩
    · rw [split]
      simpa using clear
    · have later := inductionHypothesis rest.length
        (by rw [← size, List.length_append, List.length_cons]; omega) rest rfl
      rw [split]
      exact List.forall_mem_cons.mpr ⟨clear, later⟩

/-- The first binding of a query. -/
theorem parseArgs_segment {segment : List UInt8} (binds : 61 ∈ segment) (clear : 38 ∉ segment)
    (fuel : Nat) (args : StringMap) :
    HttpRequest.parseArgs (fuel + 1) segment args =
        HttpRequest.parseArgs fuel [] (args.set (binding segment).1 (binding segment).2) ∧
      ∀ rest, HttpRequest.parseArgs (fuel + 1) (segment ++ 38 :: rest) args =
        HttpRequest.parseArgs fuel rest (args.set (binding segment).1 (binding segment).2) := by
  obtain ⟨key, value, rfl, noEquals⟩ := List.eq_append_cons_of_mem binds
  have clearValue : ∀ byte ∈ value, decide (byte ≠ 38) = true := by
    intro byte member
    have different : byte ≠ 38 := by
      rintro rfl
      exact clear (List.mem_append_right _ (List.mem_cons_of_mem _ member))
    simpa using different
  have clearKey : ∀ byte ∈ key, decide (byte ≠ 61) = true := by
    intro byte member
    have different : byte ≠ 61 := fun same => noEquals (same ▸ member)
    simpa using different
  have scanned : ∀ more, (key ++ 61 :: more).takeWhile (· ≠ 61) = key ∧
      (key ++ 61 :: more).dropWhile (· ≠ 61) = 61 :: more := fun more =>
    takeWhile_stop _ clearKey (by simp)
  have bound : binding (key ++ 61 :: value) = (key, value) := by
    unfold binding
    rw [(scanned value).1, (scanned value).2]
    rfl
  have started : ∀ more, ¬ (key ++ 61 :: more = [] ∨ 61 ∉ key ++ 61 :: more) := by
    intro more
    simp
  have stopped : ∀ more : List UInt8, (∀ byte ∈ more.head?, byte = 38) →
      (value ++ more).takeWhile (· ≠ 38) = value ∧ (value ++ more).dropWhile (· ≠ 38) = more :=
    fun more separator =>
      takeWhile_stop _ clearValue fun byte member => by simp [separator byte member]
  rw [bound]
  constructor
  · obtain ⟨taken, left⟩ := stopped [] (by simp)
    rw [List.append_nil] at taken left
    rw [HttpRequest.parseArgs, if_neg (started value), (scanned value).1, (scanned value).2]
    simp only [List.tail_cons]
    rw [taken, left]
    rfl
  · intro rest
    obtain ⟨taken, left⟩ := stopped (38 :: rest) (by simp)
    rw [List.append_assoc, List.cons_append, HttpRequest.parseArgs, if_neg (started _),
      (scanned _).1, (scanned _).2]
    simp only [List.tail_cons]
    rw [taken, left]
    rfl

theorem flagsLast_cons (segment : List UInt8) (rest : List UInt8) :
    FlagsLast (segment :: rest.splitOn 38) ↔
      (61 ∉ segment → 61 ∉ rest) ∧ FlagsLast (rest.splitOn 38) := by
  unfold FlagsLast
  rw [List.pairwise_cons, mem_segments_iff rest]
  refine and_congr_left fun _ => ?_
  constructor
  · rintro ordered isFlag ⟨later, member, binds⟩
    exact isFlag (ordered later member binds)
  · intro ordered later member binds
    by_contra isFlag
    exact ordered isFlag ⟨later, member, binds⟩

theorem bindings_of_not_mem {query : List UInt8} (nothing : 61 ∉ query) :
    bindings (query.splitOn 38) = [] := by
  rw [mem_segments_iff] at nothing
  unfold bindings
  rw [List.map_eq_nil_iff, List.filter_eq_nil_iff]
  intro segment member binds
  exact nothing ⟨segment, member, by simpa using binds⟩

theorem bindings_cons {segment : List UInt8} (binds : 61 ∈ segment)
    (segments : List (List UInt8)) :
    bindings (segment :: segments) = binding segment :: bindings segments := by
  unfold bindings
  rw [List.filter_cons_of_pos (by simpa using binds), List.map_cons]

theorem parseArgs_of_not_mem {query : List UInt8} (nothing : 61 ∉ query) (fuel : Nat)
    (args : StringMap) : HttpRequest.parseArgs fuel query args = args := by
  cases fuel with
  | zero => rfl
  | succ fuel => rw [HttpRequest.parseArgs, if_pos (.inr nothing)]

/-- A query whose flags are last binds what its segments bind. -/
theorem parseArgs_of_flagsLast {query : List UInt8} (ordered : FlagsLast (query.splitOn 38))
    {fuel : Nat} (enough : query.length ≤ fuel) (args : StringMap) :
    HttpRequest.parseArgs fuel query args = args.setAll (bindings (query.splitOn 38)) := by
  induction fuel generalizing query args with
  | zero =>
    obtain rfl := List.length_eq_zero_iff.mp (Nat.le_zero.mp enough)
    rfl
  | succ fuel inductionHypothesis =>
    by_cases nothing : 61 ∉ query
    · rw [parseArgs_of_not_mem nothing, bindings_of_not_mem nothing]
      rfl
    · rcases segments_cases query with ⟨clear, split⟩ | ⟨segment, rest, rfl, clear, split⟩
      · have binds := not_not.mp nothing
        rw [(parseArgs_segment binds clear fuel args).1, split, bindings_cons binds,
          parseArgs_of_not_mem List.not_mem_nil]
        rfl
      · rw [split, flagsLast_cons] at ordered
        have binds : 61 ∈ segment := by
          by_contra isFlag
          refine nothing ?_
          rw [List.mem_append, List.mem_cons]
          rintro (inSegment | separator | inRest)
          · exact isFlag inSegment
          · exact absurd separator (by decide)
          · exact ordered.1 isFlag inRest
        rw [(parseArgs_segment binds clear fuel args).2 rest, split, bindings_cons binds,
          OrderedMap.setAll_cons]
        refine inductionHypothesis ordered.2 ?_ _
        rw [List.length_append, List.length_cons] at enough
        omega

/-- A query with a flag in front of a binding gets a key with `&` in it. -/
theorem parseArgs_of_not_flagsLast {query : List UInt8}
    (unordered : ¬ FlagsLast (query.splitOn 38)) {fuel : Nat} (enough : query.length ≤ fuel)
    (args : StringMap) :
    ∃ key, 38 ∈ key ∧ (HttpRequest.parseArgs fuel query args).find key ≠ none := by
  induction fuel generalizing query args with
  | zero =>
    obtain rfl := List.length_eq_zero_iff.mp (Nat.le_zero.mp enough)
    exact absurd (List.pairwise_singleton _ _) unordered
  | succ fuel inductionHypothesis =>
    rcases segments_cases query with ⟨-, split⟩ | ⟨segment, rest, rfl, clear, split⟩
    · rw [split] at unordered
      exact absurd (List.pairwise_singleton _ _) unordered
    · by_cases binds : 61 ∈ segment
      · rw [(parseArgs_segment binds clear fuel args).2 rest]
        rw [split, flagsLast_cons] at unordered
        refine inductionHypothesis (fun ordered => unordered ⟨fun isFlag => absurd binds isFlag,
          ordered⟩) ?_ _
        rw [List.length_append, List.length_cons] at enough
        omega
      · -- The segment and the `&` behind it become a part of the key.
        have more : 61 ∈ segment ++ 38 :: rest := by
          by_contra nothing
          refine unordered ?_
          rw [split, flagsLast_cons]
          have nothingLater : 61 ∉ rest := fun member =>
            nothing (List.mem_append_right _ (List.mem_cons_of_mem _ member))
          refine ⟨fun _ => nothingLater, ?_⟩
          rw [mem_segments_iff] at nothingLater
          refine List.pairwise_of_forall_mem_list fun earlier _ later member inLater => ?_
          exact absurd ⟨later, member, inLater⟩ nothingLater
        have started : ¬ (segment ++ 38 :: rest = [] ∨ 61 ∉ segment ++ 38 :: rest) := by
          rw [not_or]
          exact ⟨by simp, not_not.mpr more⟩
        refine ⟨(segment ++ 38 :: rest).takeWhile (· ≠ 61), ?_, ?_⟩
        · have passed : ∀ byte ∈ segment, decide (byte ≠ 61) = true := by
            intro byte member
            have different : byte ≠ 61 := fun same => binds (same ▸ member)
            simpa using different
          rw [List.takeWhile_append_of_pos passed, List.takeWhile_cons_of_pos (by decide)]
          exact List.mem_append_right _ List.mem_cons_self
        · obtain ⟨entries, assigns⟩ := HttpRequest.parseArgs_eq_setAll fuel
            ((((segment ++ 38 :: rest).dropWhile (· ≠ 61)).tail).dropWhile (· ≠ 38)).tail
          rw [HttpRequest.parseArgs, if_neg started]
          simp only
          rw [assigns, Ne, OrderedMap.find_setAll_eq_none_iff, OrderedMap.find_set, if_pos rfl]
          exact fun nothing => absurd nothing.1 (Option.some_ne_none _)

/-- No key of the meaning has `&` in it. -/
theorem find_queryMeaning {query key : List UInt8} (separator : 38 ∈ key) :
    (queryMeaning query).find key = none := by
  unfold queryMeaning
  rw [OrderedMap.find_setAll_eq_none_iff]
  refine ⟨OrderedMap.find_empty key, fun entry member same => ?_⟩
  obtain ⟨segment, isSegment, rfl⟩ := List.mem_map.mp member
  have inSegment : 38 ∈ segment := by
    rw [← same] at separator
    exact List.takeWhile_subset _ separator
  exact not_mem_segments query segment (List.mem_of_mem_filter isSegment) inSegment

/-- The arguments are what they should be, if and only if the flags are last. -/
theorem parseArgs_eq_meaning_iff (query : List UInt8) :
    HttpRequest.parseArgs query.length query OrderedMap.empty = queryMeaning query ↔
      FlagsLast (query.splitOn 38) := by
  constructor
  · intro same
    by_contra unordered
    obtain ⟨key, separator, present⟩ :=
      parseArgs_of_not_flagsLast unordered (le_refl _) OrderedMap.empty
    rw [same, find_queryMeaning separator] at present
    exact present rfl
  · exact fun ordered => parseArgs_of_flagsLast ordered (le_refl _) OrderedMap.empty

/-! ### The target of a request -/

namespace HttpRequest

/-- The second word of the first line. -/
def target (buf : List UInt8) : List UInt8 :=
  (eatWord (eatWord (eatLine buf).1).2).1

/-- What is behind the first `?` of a target. -/
def queryOf (target : List UInt8) : List UInt8 :=
  (target.dropWhile (· ≠ 63)).tail

/-- The line that a call on a new message stores. -/
theorem line_of_tryDecode {buf line1 : List UInt8} {copyBody : Bool} {result : ParseResult}
    {msg : HttpMsg} (decoded : HttpMsg.cleared.tryDecode_ buf copyBody = .ok (result, msg, line1))
    (present : ∀ looked, HttpMsg.cleared.decodeHeader buf ≠ .missing looked) :
    line1 = (eatLine buf).1 := by
  obtain ⟨header, rest, rfl, nonempty, found⟩ := HttpMsg.header_of_decodeHeader rfl present
  have parses := HttpMsg.decodeHeader_of_seek (show HttpMsg.cleared.scanned = 0 from rfl) found
    nonempty
  have sameLine : (eatLine (header ++ headerEnd ++ rest)).1 = (eatLine header).1 := by
    rw [List.append_assoc]
    rw [HttpMsg.eatLine_front header fun byte first => ?_]
    obtain rfl : 13 = byte := Option.some.inj first
    decide
  rw [sameLine]
  cases HttpMsg.phase_of_tryDecode decoded with
  | looking looked missing => exact absurd missing (present _)
  | malformed looked line malformed =>
    exact HttpMsg.line_of_parseHeader (.inl (parses.symm.trans malformed))
  | waiting parsed line isParsed short =>
    exact HttpMsg.line_of_parseHeader (.inr (parses.symm.trans isParsed))
  | complete parsed done line isParsed body =>
    exact HttpMsg.line_of_parseHeader (.inr (parses.symm.trans isParsed))

/-- For every buffer with a header whose target has a query: the path and the arguments of the
decoded request are what the target says, if and only if no segment of the query with `=` is behind
one without. -/
theorem query_meaning_iff (buf : List UInt8) (copyBody : Bool) (result : ParseResult)
    (req : HttpRequest) (present : ∀ looked, HttpMsg.cleared.decodeHeader buf ≠ .missing looked)
    (asks : 63 ∈ target buf) (decoded : cleared.tryDecode buf copyBody = .ok (result, req)) :
    (req.url = (target buf).takeWhile (· ≠ 63) ∧ req.args = queryMeaning (queryOf (target buf))) ↔
      FlagsLast ((queryOf (target buf)).splitOn 38) := by
  rw [cleared_tryDecode] at decoded
  cases read : HttpMsg.cleared.tryDecode_ buf copyBody with
  | error fault =>
    rw [read] at decoded
    cases decoded
  | ok outcome =>
    obtain ⟨found, msg, line1⟩ := outcome
    rw [read] at decoded
    obtain ⟨rfl, rfl⟩ := Prod.mk.inj (Except.ok.inj decoded)
    obtain rfl := line_of_tryDecode read present
    have nonempty : (eatLine buf).1 ≠ [] := by
      intro empty
      unfold target at asks
      rw [empty] at asks
      cases asks
    have asked : 63 ∈ (eatWord (eatWord (eatLine buf).1).2).1 := asks
    unfold assembled
    rw [if_neg nonempty]
    unfold readRequestLine
    simp only
    unfold parseUrlParams
    simp only [if_pos asked]
    rw [← parseArgs_eq_meaning_iff]
    exact and_iff_right rfl

/-- A request for a target. -/
def targetRequest (target : String) : List UInt8 :=
  text "GET " ++ text target ++ text " HTTP/1.1\r\n\r\n"

theorem targetRequest_present (target : String)
    (parsed : (HttpMsg.cleared.tryDecode_ (targetRequest target) true).toOption.map Prod.fst =
      some .complete) :
    ∀ looked, HttpMsg.cleared.decodeHeader (targetRequest target) ≠ .missing looked := by
  intro looked missing
  have waits := (HttpMsg.Phase.looking looked missing : HttpMsg.Phase _ true _ _ _).tryDecode
  rw [waits] at parsed
  cases parsed

/-- Two bindings, a value with `=` in it, and a flag behind them. -/
theorem query_meaning_iff_flag_last : ∃ req,
    cleared.tryDecode (targetRequest "/a?x=1&y=2=3&z") true = .ok (.complete, req) ∧
      req.url = text "/a" ∧ req.args = queryMeaning (text "x=1&y=2=3&z") := by
  have decoded : cleared.tryDecode (targetRequest "/a?x=1&y=2=3&z") true =
      .ok (.complete, (HttpSession.requestOf (targetRequest "/a?x=1&y=2=3&z")).2) := by
    decide +kernel
  have path : (target (targetRequest "/a?x=1&y=2=3&z")).takeWhile (· ≠ 63) = text "/a" := by
    decide
  have query : queryOf (target (targetRequest "/a?x=1&y=2=3&z")) = text "x=1&y=2=3&z" := by
    decide
  have ordered : FlagsLast ((text "x=1&y=2=3&z").splitOn 38) := by
    unfold FlagsLast
    decide
  have means := (query_meaning_iff (targetRequest "/a?x=1&y=2=3&z") true .complete _
    (targetRequest_present _ (by decide +kernel)) (by decide +kernel) decoded).mpr
    (by rw [query]; exact ordered)
  rw [path, query] at means
  exact ⟨_, decoded, means⟩

/-- A flag in front of a binding becomes a part of its key. -/
theorem not_query_meaning :
    ¬ ∀ (buf : List UInt8) (req : HttpRequest),
      (∀ looked, HttpMsg.cleared.decodeHeader buf ≠ .missing looked) → 63 ∈ target buf →
      cleared.tryDecode buf true = .ok (.complete, req) →
      req.url = (target buf).takeWhile (· ≠ 63) ∧
        req.args = queryMeaning (queryOf (target buf)) := by
  intro means
  have decoded : cleared.tryDecode (targetRequest "/a?flag&x=1") true =
      .ok (.complete, (HttpSession.requestOf (targetRequest "/a?flag&x=1")).2) := by
    decide +kernel
  have present := targetRequest_present "/a?flag&x=1" (by decide +kernel)
  have asks : 63 ∈ target (targetRequest "/a?flag&x=1") := by decide
  have differs : (HttpSession.requestOf (targetRequest "/a?flag&x=1")).2.args ≠
      queryMeaning (queryOf (target (targetRequest "/a?flag&x=1"))) := by decide +kernel
  exact differs (means _ _ present asks decoded).2

end HttpRequest

end YYNet
