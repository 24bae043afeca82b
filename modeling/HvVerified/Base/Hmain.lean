import HvVerified.Base.Hstring

/-!
# `base/hmain.c`: the options of the command line

`argv` is given up to its `NULL`, so `argc` is its length. The tables `arg_kv` and `arg_list` are the lists of what
has been stored in them; they have `strlen(options) + 1` (or one more than the option table) and `argc` slots.
-/

namespace HvVerified.Base

open List

/-- `NO_ARGUMENT`, `REQUIRED_ARGUMENT`, `OPTIONAL_ARGUMENT` -/
inductive ArgType where
  | no
  | required
  | optional
  deriving DecidableEq

/-- `option_t` -/
structure OptionT where
  shortOpt : UInt8
  longOpt : Option ByteString
  argType : ArgType

/-- The tables of `main_ctx_t` that the arguments are stored in. -/
structure MainCtx where
  argKv : List (ByteString × ByteString) := []
  argList : List ByteString := []

/-- `save_arg_kv` -/
def MainCtx.saveArgKv (ctx : MainCtx) (key val : ByteString) : MainCtx :=
  { ctx with argKv := ctx.argKv ++ [(key, val)] }

/-- `save_arg_list` -/
def MainCtx.saveArgList (ctx : MainCtx) (arg : ByteString) : MainCtx :=
  { ctx with argList := ctx.argList ++ [arg] }

/-- `OPTION_ENABLE` -/
def optionEnable : ByteString := ascii "1"

/-- A round of a loop over `argv`: the code that is returned, or whether the next argument was taken too. -/
abbrev Round := MainCtx × Except Int Bool

/-- The loop over the arguments; an argument may take the next one as its value. -/
def argLoop (round : MainCtx → ByteString → Option ByteString → Round) : MainCtx → List ByteString → Int × MainCtx
  | ctx, [] => (0, ctx)
  | ctx, arg :: rest =>
    match round ctx arg rest.head? with
    | (ctx, .error code) => (code, ctx)
    | (ctx, .ok false) => argLoop round ctx rest
    | (ctx, .ok true) =>
      match rest with
      | [] => (0, ctx)
      | _ :: rest => argLoop round ctx rest

/-! ## `parse_opt` -/

/-- `get_arg_type`: what follows the letter in the string of options. -/
def getArgType (shortOpt : UInt8) : ByteString → Option ArgType
  | [] => none
  | c :: p => if c = shortOpt then some (if p.head? = some 58 then .required else .no) else getArgType shortOpt p

/-- The loop over the letters of an argument. -/
def parseLetters (options : ByteString) (next : Option ByteString) : MainCtx → ByteString → Round
  | ctx, [] => (ctx, .ok false)
  | ctx, c :: p =>
    match getArgType c options with
    | none => (ctx, .error (-20))
    | some .no => parseLetters options next (ctx.saveArgKv [c] optionEnable) p
    | some _ =>
      if p ≠ [] then (ctx.saveArgKv [c] p, .ok false)
      else
        match next with
        | some val => (ctx.saveArgKv [c] val, .ok true)
        | none => (ctx, .error (-30))

/-- An iteration of `parse_opt`. -/
def parseOptArg (options : ByteString) (ctx : MainCtx) (arg : ByteString) (next : Option ByteString) : Round :=
  if arg.head? = some 45 then parseLetters options next ctx arg.tail else (ctx.saveArgList arg, .ok false)

/-- `parse_opt` -/
def parseOpt (argv : List ByteString) (options : ByteString) : Int × MainCtx :=
  argLoop (parseOptArg options) {} argv.tail

/-! ## `parse_opt_long` -/

/-- `get_option`. `strcmp` with a `NULL` has no result; such an option is not found here. -/
def getOption (table : List OptionT) : ByteString → Option OptionT
  | [] => none
  | [c] => table.find? fun o => o.shortOpt = c
  | opt => table.find? fun o => o.longOpt = some opt

/-- The key of an entry; a `char` is negative from 128 on. -/
def OptionT.key (o : OptionT) : Option ByteString :=
  if 0 < o.shortOpt ∧ o.shortOpt < 128 then some [o.shortOpt] else o.longOpt

/-- How many dashes an argument begins with. -/
inductive OptType where
  | noPrefix
  | short
  | long
  deriving DecidableEq

/-- The type of an option and the argument behind its prefix. -/
def splitDashes : ByteString → OptType × ByteString
  | 45 :: 45 :: arg => (.long, arg)
  | 45 :: arg => (.short, arg)
  | arg => (.noPrefix, arg)

/-- `opt`; `none` if the delimiter is not where it may be. -/
def optionName (type : OptType) (arg : ByteString) : Option ByteString :=
  match arg.idxOf? 61 with
  | some k => if k = 0 ∨ k = arg.length - 1 ∨ 32 < k then none else some (arg.take k)
  | none => some (arg.take (if type = .short then 1 else 32))

/-- `value`, and whether it is the next argument; `none` if it is required and there is none. -/
def optionValue (o : OptionT) (type : OptType) (arg : ByteString) (next : Option ByteString) :
    Option (ByteString × Bool) :=
  if o.argType = .no then some (optionEnable, false)
  else
    match arg.idxOf? 61 with
    | some k => some (arg.drop (k + 1), false)
    | none =>
      if type = .short ∧ arg.tail ≠ [] then some (arg.tail, false)
      else
        match next with
        | some val => some (val, true)
        | none => if o.argType = .required then none else some (optionEnable, false)

/-- An iteration of `parse_opt_long`. -/
def parseOptLongArg (table : List OptionT) (ctx : MainCtx) (arg : ByteString) (next : Option ByteString) : Round :=
  let (type, arg) := splitDashes arg
  match optionName type arg with
  | none => (ctx, .error (-10))
  | some opt =>
    match getOption table opt with
    | none => if type = .noPrefix ∧ 61 ∉ arg then (ctx.saveArgList arg, .ok false) else (ctx, .error (-10))
    | some o =>
      match optionValue o type arg next with
      | none => (ctx, .error (-20))
      | some (val, taken) =>
        match o.key with
        | some key => (ctx.saveArgKv key val, .ok taken)
        | none => (ctx, .ok taken)

/-- `parse_opt_long` -/
def parseOptLong (argv : List ByteString) (table : List OptionT) : Int × MainCtx :=
  argLoop (parseOptLongArg table) {} argv.tail

/-! ## What the arguments say -/

/-- How many options an argument has, and whether the next one is taken as a value; `none` ends the parsing. -/
abbrev Reading := Nat × Option Bool

/-- The options in a list of arguments. -/
def optionCount (read : ByteString → Option ByteString → Reading) : List ByteString → Nat
  | [] => 0
  | arg :: rest =>
    match read arg rest.head? with
    | (k, none) => k
    | (k, some false) => k + optionCount read rest
    | (k, some true) =>
      match rest with
      | [] => k
      | _ :: rest => k + optionCount read rest

/-- The option is followed by a colon where it comes first. -/
def takesValue (options : ByteString) (c : UInt8) : Bool := (options.dropWhile (· ≠ c)).tail.head? = some 58

/-- The letter is an option without a value. -/
def isFlag (options : ByteString) (c : UInt8) : Bool := c ∈ options && !takesValue options c

/-- Behind flags there may be an option with a value, which is the rest of the letters or the next argument. -/
def readLetters (options letters : ByteString) (next : Option ByteString) : Reading :=
  let flags := (letters.takeWhile (isFlag options)).length
  match letters.dropWhile (isFlag options) with
  | [] => (flags, some false)
  | c :: p =>
    if c ∉ options then (flags, none)
    else if p ≠ [] then (flags + 1, some false)
    else if next.isSome then (flags + 1, some true)
    else (flags, none)

/-- What an argument of `parse_opt` stores. -/
def readOpt (options arg : ByteString) (next : Option ByteString) : Reading :=
  if arg.head? = some 45 then readLetters options arg.tail next else (0, some false)

/-- An argument that names an option of the table, which has a key unless both its names are missing. -/
def readOptLong (table : List OptionT) (arg : ByteString) (next : Option ByteString) : Reading :=
  let (type, arg) := splitDashes arg
  match (optionName type arg).bind (getOption table) with
  | none => (0, if type = .noPrefix ∧ 61 ∉ arg then some false else none)
  | some o =>
    match optionValue o type arg next with
    | none => (0, none)
    | some (_, taken) => (if o.key.isSome then 1 else 0, some taken)

/-! ## The tables -/

variable {ctx : MainCtx} {options : ByteString} {table : List OptionT}

/-- A round stores an entry for each option, and at most one argument. -/
structure Stored (ctx : MainCtx) (reading : Reading) (r : Round) : Prop where
  kv : r.1.argKv.length = ctx.argKv.length + reading.1
  list : r.1.argList.length ≤ ctx.argList.length + 1
  goesOn : r.2.toOption = reading.2

theorem stored_argLoop {round : MainCtx → ByteString → Option ByteString → Round}
    {read : ByteString → Option ByteString → Reading}
    (hround : ∀ ctx arg next, Stored ctx (read arg next) (round ctx arg next)) :
    ∀ (args : List ByteString) (ctx : MainCtx),
      (argLoop round ctx args).2.argKv.length = ctx.argKv.length + optionCount read args ∧
        (argLoop round ctx args).2.argList.length ≤ ctx.argList.length + args.length
  | [], ctx => ⟨rfl, Nat.le_refl _⟩
  | arg :: rest, ctx => by
    have hone := hround ctx arg rest.head?
    unfold argLoop optionCount
    generalize round ctx arg rest.head? = r at hone
    generalize read arg rest.head? = reading at hone
    obtain ⟨ctx', result⟩ := r
    obtain ⟨k, goesOn⟩ := reading
    obtain ⟨hkv, hlist, rfl⟩ := hone
    dsimp only at hkv hlist
    rcases result with code | (_ | _)
    · exact ⟨hkv, Nat.le_trans hlist (Nat.add_le_add_left (Nat.le_add_left 1 _) _)⟩
    · obtain ⟨hkv', hlist'⟩ := stored_argLoop hround rest ctx'
      show (argLoop round ctx' rest).2.argKv.length = _ + (k + _) ∧ (argLoop round ctx' rest).2.argList.length ≤ _
      rw [length_cons]
      omega
    · cases rest with
      | nil => exact ⟨hkv, hlist⟩
      | cons val rest =>
        obtain ⟨hkv', hlist'⟩ := stored_argLoop hround rest ctx'
        show (argLoop round ctx' rest).2.argKv.length = _ + (k + _) ∧ (argLoop round ctx' rest).2.argList.length ≤ _
        rw [length_cons, length_cons]
        omega

theorem getArgType_eq (c : UInt8) (options : ByteString) : getArgType c options =
    if c ∈ options then some (if takesValue options c then .required else .no) else none := by
  induction options with
  | nil => rfl
  | cons b p ih =>
    by_cases hb : b = c
    · subst hb
      simp [getArgType, takesValue]
    · rw [getArgType, if_neg hb, ih]
      simp [takesValue, hb, Ne.symm hb]

theorem readLetters_flag {c : UInt8} (hflag : isFlag options c) (p : ByteString) (next : Option ByteString) :
    readLetters options (c :: p) next = ((readLetters options p next).1 + 1, (readLetters options p next).2) := by
  unfold readLetters
  rw [takeWhile_cons_of_pos hflag, dropWhile_cons_of_pos hflag, length_cons]
  dsimp only
  split
  · rfl
  · split_ifs <;> rfl

theorem stored_parseLetters {next : Option ByteString} (letters : ByteString) : ∀ ctx : MainCtx,
    Stored ctx (readLetters options letters next) (parseLetters options next ctx letters) := by
  induction letters with
  | nil => exact fun ctx => ⟨rfl, Nat.le_succ _, rfl⟩
  | cons c p ih =>
    intro ctx
    unfold parseLetters
    rw [getArgType_eq]
    by_cases hflag : isFlag options c
    · obtain ⟨hmem, hvalue⟩ : c ∈ options ∧ takesValue options c = false := by simpa [isFlag] using hflag
      obtain ⟨hkv, hlist, hgoesOn⟩ := ih (ctx.saveArgKv [c] optionEnable)
      rw [readLetters_flag hflag, if_pos hmem, hvalue]
      refine ⟨?_, hlist, hgoesOn⟩
      show (parseLetters options next (ctx.saveArgKv [c] optionEnable) p).1.argKv.length = _ + (_ + 1)
      rw [hkv, MainCtx.saveArgKv, length_append, length_singleton]
      omega
    · unfold readLetters
      rw [takeWhile_cons_of_neg hflag, dropWhile_cons_of_neg hflag]
      by_cases hmem : c ∈ options
      · have hvalue : takesValue options c := by simpa [isFlag, hmem] using hflag
        rw [if_pos hmem, hvalue]
        cases p with
        | cons b p => exact ⟨by simp [hmem, MainCtx.saveArgKv], Nat.le_succ _, by simp [hmem, Except.toOption]⟩
        | nil =>
          cases next with
          | none => exact ⟨by simp [hmem], Nat.le_succ _, by simp [hmem, Except.toOption]⟩
          | some val => exact ⟨by simp [hmem, MainCtx.saveArgKv], Nat.le_succ _, by simp [hmem, Except.toOption]⟩
      · rw [if_neg hmem]
        exact ⟨by simp [hmem], Nat.le_succ _, by simp [hmem, Except.toOption]⟩

theorem stored_parseOptArg (ctx : MainCtx) (arg : ByteString) (next : Option ByteString) :
    Stored ctx (readOpt options arg next) (parseOptArg options ctx arg next) := by
  unfold readOpt parseOptArg
  split_ifs
  · exact stored_parseLetters arg.tail ctx
  · exact ⟨rfl, by simp [MainCtx.saveArgList], rfl⟩

theorem stored_parseOptLongArg (ctx : MainCtx) (arg : ByteString) (next : Option ByteString) :
    Stored ctx (readOptLong table arg next) (parseOptLongArg table ctx arg next) := by
  unfold readOptLong parseOptLongArg
  dsimp only
  cases hname : optionName (splitDashes arg).1 (splitDashes arg).2 with
  | none =>
    -- the delimiter is at a wrong place
    have hdelim : 61 ∈ (splitDashes arg).2 := by
      by_contra hnone
      rw [optionName, idxOf?_eq_none_iff.2 hnone] at hname
      cases hname
    exact ⟨rfl, Nat.le_succ _, by simp [hdelim, Except.toOption]⟩
  | some opt =>
    dsimp only [Option.bind_some]
    cases getOption table opt with
    | none =>
      dsimp only
      split_ifs
      · exact ⟨rfl, by simp [MainCtx.saveArgList], rfl⟩
      · exact ⟨rfl, Nat.le_succ _, rfl⟩
    | some o =>
      dsimp only
      cases optionValue o (splitDashes arg).1 (splitDashes arg).2 next with
      | none => exact ⟨rfl, Nat.le_succ _, rfl⟩
      | some value =>
        dsimp only
        cases o.key with
        | none => exact ⟨rfl, Nat.le_succ _, rfl⟩
        | some key => exact ⟨by simp [MainCtx.saveArgKv], Nat.le_succ _, rfl⟩

/-- `arg_list` stays within `argc - 1` entries. `arg_kv` keeps a slot for the `NULL` iff the options on the command line,
    counted as often as they are given and up to an error, are not more than the characters of the option string, or the
    rows of the option table. -/
theorem arg_tables_bounded_iff (argv : List ByteString) :
    (∀ options, (parseOpt argv options).2.argList.length ≤ argv.length - 1 ∧
      ((parseOpt argv options).2.argKv.length ≤ options.length ↔
        optionCount (readOpt options) argv.tail ≤ options.length)) ∧
    ∀ table, (parseOptLong argv table).2.argList.length ≤ argv.length - 1 ∧
      ((parseOptLong argv table).2.argKv.length ≤ table.length ↔
        optionCount (readOptLong table) argv.tail ≤ table.length) := by
  constructor
  · intro options
    obtain ⟨hkv, hlist⟩ := stored_argLoop (@stored_parseOptArg options) argv.tail {}
    rw [length_tail, show ({} : MainCtx).argList.length = 0 from rfl, Nat.zero_add] at hlist
    exact ⟨hlist, by rw [parseOpt, hkv]; simp⟩
  · intro table
    obtain ⟨hkv, hlist⟩ := stored_argLoop (@stored_parseOptLongArg table) argv.tail {}
    rw [length_tail, show ({} : MainCtx).argList.length = 0 from rfl, Nat.zero_add] at hlist
    exact ⟨hlist, by rw [parseOptLong, hkv]; simp⟩

example : optionCount (readOpt (ascii "hp:")) [ascii "-hh"] = 2 := by decide

/-- Three entries are stored where two slots have been allocated. -/
theorem repeated_option_overflows : (parseOpt [ascii "prog", ascii "-hhh"] (ascii "h")).2.argKv.length = 3 ∧
    (parseOptLong [ascii "prog", ascii "-h", ascii "-h", ascii "-h"] [⟨104, none, .no⟩]).2.argKv.length = 3 := by
  decide

end HvVerified.Base
