/-
Parameter vectors and the frames of calls.

A parameter vector is read exactly if its items are symbols that spell distinct names
(`Params.readFrom_eq_ok_iff`), and what is read is written as the vector was. Because the names
are distinct, binding them one after the other makes the bindings of the frame
(`Store.frame_defineAll`), so that each argument is found under its own name and nothing else is
bound. Main statement: `Params.read_and_bound`.
-/

import Sexpr.Node.Print
import Sexpr.Proofs.Run.Discipline
import Sexpr.Proofs.Table

namespace Sexpr

/-! ### Reading parameter vectors -/

namespace Node

theorem symbol?_eq_some_iff {n : Node} {name : String} :
    n.symbol? = some name ↔ ∃ p, n = .symbol p name := by
  cases n <;> simp [symbol?]

/-- Symbols are written by their names. -/
theorem printAll_of_symbols {items : List Node} {words : List String}
    (spelled : items.map symbol? = words.map some) : printAll items = words := by
  induction items generalizing words with
  | nil =>
    cases words with
    | nil => rfl
    | cons word words => cases spelled
  | cons item items ih =>
    cases words with
    | nil => cases spelled
    | cons word words =>
      obtain ⟨here, behind⟩ := List.cons.inj spelled
      obtain ⟨p, rfl⟩ := symbol?_eq_some_iff.mp here
      rw [printAll, ih behind, print]

end Node

namespace Params

/-- The names are distinct, and none of them is the marker. -/
structure Distinct (params : Params) : Prop where
  nodup : params.names.Nodup
  noMarker : restMarker ∉ params.names
  rest : ∀ rest, params.rest = some rest → rest ≠ restMarker ∧ rest ∉ params.names

theorem readRest_eq_ok_iff {names : List String} {items : List Node} {params : Params} :
    readRest names items = .ok params ↔
      ∃ rest, params = ⟨names, some rest⟩ ∧ rest ≠ restMarker ∧ rest ∉ names ∧
        items.map Node.symbol? = [some rest] := by
  unfold readRest
  split
  · rename_i p name
    have single : [Node.symbol p name].map Node.symbol? = [some name] := rfl
    rw [single]
    split
    · rename_i marker
      subst marker
      simp +contextual [eq_comm]
    · rename_i ordinary
      unfold fresh
      split
      · rename_i known
        constructor
        · exact fun h => nomatch h
        · rintro ⟨rest, -, -, new, same⟩
          cases same
          exact absurd known new
      · rename_i new
        constructor
        · rintro ⟨⟩
          exact ⟨name, rfl, ordinary, new, rfl⟩
        · rintro ⟨rest, rfl, -, -, same⟩
          cases same
          rfl
  · rename_i notSymbol
    constructor
    · exact fun h => nomatch h
    · rintro ⟨rest, -, -, -, spelled⟩
      obtain ⟨item, rfl, isSymbol⟩ := List.map_eq_singleton_iff.mp spelled
      obtain ⟨p, rfl⟩ := Node.symbol?_eq_some_iff.mp isSymbol
      exact absurd rfl (notSymbol p rest)

theorem words_cons (name : String) (names : List String) (rest : Option String) :
    words ⟨name :: names, rest⟩ = name :: words ⟨names, rest⟩ := by
  cases rest <;> rfl

/-- The first word of a parameter vector is a name, or the marker in front of the last word. -/
theorem spelled_cons_iff {names : List String} {rest : Option String} {word : String}
    {row : List (Option String)} :
    some word :: row = (words ⟨names, rest⟩).map some ↔
      (∃ names', names = word :: names' ∧ row = (words ⟨names', rest⟩).map some) ∨
      names = [] ∧ word = restMarker ∧ ∃ last, rest = some last ∧ row = [some last] := by
  cases names with
  | cons name names =>
    rw [words_cons, List.map_cons, List.cons.injEq, Option.some.injEq]
    constructor
    · rintro ⟨rfl, rfl⟩
      exact .inl ⟨names, rfl, rfl⟩
    · rintro (⟨_, ⟨⟩, spelled⟩ | ⟨⟨⟩, _⟩)
      exact ⟨rfl, spelled⟩
  | nil =>
    cases rest with
    | none => simp [words]
    | some last => simp [words]

/-- Parameters are read behind others exactly if they are symbols that spell distinct names. -/
theorem readFrom_eq_ok_iff {names : List String} {items : List Node} {params : Params}
    (nodup : names.Nodup) (noMarker : restMarker ∉ names) :
    readFrom names items = .ok params ↔
      ∃ more, params.names = names ++ more ∧ params.Distinct ∧
        items.map Node.symbol? = (words ⟨more, params.rest⟩).map some := by
  induction items generalizing names with
  | nil =>
    constructor
    · rintro ⟨⟩
      exact ⟨[], (List.append_nil _).symm, ⟨nodup, noMarker, fun _ h => nomatch h⟩, rfl⟩
    · rintro ⟨more, isNames, _, spelled⟩
      obtain ⟨all, rest⟩ := params
      cases rest with
      | some rest => simp [words] at spelled
      | none =>
        obtain rfl : more = [] := List.map_eq_nil_iff.mp spelled.symm
        rw [List.append_nil] at isNames
        cases isNames
        rfl
  | cons item items ih =>
    cases symbol : item.symbol? with
    | none =>
      have refused : readFrom names (item :: items) =
          .error (.mismatch (.parameter item.mention)) := by
        cases item with
        | symbol p name => cases symbol
        | _ => rfl
      rw [refused, List.map_cons, symbol]
      constructor
      · exact fun h => nomatch h
      · rintro ⟨more, -, -, spelled⟩
        generalize words _ = row at spelled
        cases row <;> cases spelled
    | some name =>
      obtain ⟨p, rfl⟩ := Node.symbol?_eq_some_iff.mp symbol
      simp only [readFrom, List.map_cons, symbol, spelled_cons_iff]
      split
      · rename_i marker
        rw [readRest_eq_ok_iff]
        constructor
        · rintro ⟨rest, rfl, ordinary, new, spelled⟩
          refine ⟨[], (List.append_nil _).symm, ⟨nodup, noMarker, ?_⟩,
            .inr ⟨rfl, marker, rest, rfl, spelled⟩⟩
          rintro _ ⟨⟩
          exact ⟨ordinary, new⟩
        · rintro ⟨more, isNames, distinct, ⟨more', rfl, _⟩ | ⟨rfl, _, last, isRest, spelled⟩⟩
          · have isName : name ∈ params.names :=
              isNames ▸ List.mem_append_right names List.mem_cons_self
            exact absurd (marker ▸ isName) distinct.noMarker
          · obtain ⟨all, rest⟩ := params
            rw [List.append_nil] at isNames
            cases isNames
            cases isRest
            exact ⟨last, rfl, (distinct.rest last rfl).1, (distinct.rest last rfl).2, spelled⟩
      · rename_i ordinary
        by_cases known : name ∈ names
        · rw [fresh, if_pos known]
          constructor
          · exact fun h => nomatch h
          · rintro ⟨more, isNames, distinct, ⟨more', rfl, _⟩ | ⟨_, marker, _⟩⟩
            · have apart := (List.nodup_append.mp (isNames ▸ distinct.nodup)).2.2
              exact absurd rfl (apart name known name List.mem_cons_self)
            · exact absurd marker ordinary
        · have nodup' : (names ++ [name]).Nodup := by
            refine List.nodup_append.mpr ⟨nodup, by simp, ?_⟩
            rintro a mem b isName rfl
            exact known (List.mem_singleton.mp isName ▸ mem)
          have noMarker' : restMarker ∉ names ++ [name] := by
            simpa [noMarker] using Ne.symm ordinary
          rw [fresh, if_neg known]
          refine (ih nodup' noMarker').trans ?_
          constructor
          · rintro ⟨more, isNames, distinct, spelled⟩
            exact ⟨name :: more, by simp [isNames], distinct, .inl ⟨more, rfl, spelled⟩⟩
          · rintro ⟨more, isNames, distinct, ⟨more', rfl, spelled⟩ | ⟨_, marker, _⟩⟩
            · exact ⟨more', by simp [isNames], distinct, spelled⟩
            · exact absurd marker ordinary

/-- A parameter vector is a vector of symbols that spell distinct names, perhaps with the marker
in front of the last one; such a vector is written as what is read from it. -/
theorem ofNode_eq_ok_iff {callee : String} {node : Node} {params : Params} :
    ofNode callee node = .ok params ↔
      ∃ place items, node = .vector place items ∧
        items.map Node.symbol? = params.words.map some ∧ params.Distinct := by
  cases node with
  | vector place items =>
    rw [ofNode, readFrom_eq_ok_iff List.nodup_nil List.not_mem_nil]
    constructor
    · rintro ⟨more, rfl, distinct, spelled⟩
      exact ⟨place, items, rfl, spelled, distinct⟩
    · rintro ⟨_, _, ⟨⟩, spelled, distinct⟩
      exact ⟨params.names, rfl, distinct, spelled⟩
  | _ => simp [ofNode]

theorem print_of_spelled {params : Params} {place : Place} {items : List Node}
    (spelled : items.map Node.symbol? = params.words.map some) :
    params.print = (Node.vector place items).print := by
  rw [print, Node.print, Node.printAll_of_symbols spelled]

/-! ### Binding arguments -/

/-- The arguments are as many as the parameters ask for. -/
def Fits (params : Params) (args : List Node) : Prop :=
  match params.rest with
  | none => args.length = params.names.length
  | some _ => params.names.length ≤ args.length

theorem accepts_arity_iff (params : Params) (args : List Node) :
    params.arity.accepts args.length = true ↔ params.Fits args := by
  cases isRest : params.rest <;> simp [arity, Fits, Arity.accepts, isRest]

instance (params : Params) (args : List Node) : Decidable (params.Fits args) :=
  decidable_of_iff _ (accepts_arity_iff params args)

/-- Every parameter has its argument, and there is nothing else. -/
theorem mem_bindings_iff {params : Params} {place : Place} {args : List Node} {name : String}
    {value : Node} :
    (name, value) ∈ params.bindings place args ↔
      (∃ index : Nat, params.names[index]? = some name ∧ args[index]? = some value) ∨
      params.rest = some name ∧ value = .vector place (args.drop params.names.length) := by
  have positional : (name, value) ∈ params.names.zip args ↔
      ∃ index : Nat, params.names[index]? = some name ∧ args[index]? = some value := by
    simp only [List.mem_iff_getElem?, List.getElem?_zip_eq_some]
  unfold bindings
  cases isRest : params.rest with
  | none => simp [positional]
  | some rest => simp [positional, eq_comm]

/-- The names of the bindings, if the arguments are enough. -/
theorem map_fst_bindings {params : Params} {args : List Node} (fits : params.Fits args)
    (place : Place) :
    (params.bindings place args).map Prod.fst = params.names ++ params.rest.toList := by
  have zipped (enough : params.names.length ≤ args.length) :
      (params.names.zip args).map Prod.fst = params.names :=
    List.map_fst_zip enough
  unfold Fits at fits
  unfold bindings
  cases isRest : params.rest with
  | none =>
    rw [isRest] at fits
    simp [zipped (Nat.le_of_eq fits.symm)]
  | some rest =>
    rw [isRest] at fits
    simp [zipped fits]

theorem Distinct.nodup_bindings {params : Params} (distinct : params.Distinct) {args : List Node}
    (fits : params.Fits args) (place : Place) :
    ((params.bindings place args).map Prod.fst).Nodup := by
  rw [map_fst_bindings fits, List.nodup_append]
  refine ⟨distinct.nodup, ?_, ?_⟩
  · cases params.rest <;> simp
  · rintro name mem rest isRest rfl
    exact (distinct.rest name (Option.mem_toList.mp isRest)).2 mem

end Params

namespace Store

/-- New names are bound in a frame behind those that it has. -/
theorem frame_defineAll {s : Store} {id : FrameId} {bindings : Bindings}
    (exists_ : id < s.frames.size)
    (distinct : (((s.frame id).bindings ++ bindings).map Prod.fst).Nodup) :
    (s.defineAll id bindings).frame id =
      { s.frame id with bindings := (s.frame id).bindings ++ bindings } := by
  induction bindings generalizing s with
  | nil => rw [List.append_nil]; rfl
  | cons binding bindings ih =>
    obtain ⟨name, value⟩ := binding
    have absent : name ∉ (s.frame id).bindings.map Prod.fst := by
      rw [List.map_append, List.nodup_append] at distinct
      exact fun mem => distinct.2.2 name mem name List.mem_cons_self rfl
    have first : (s.define id name value).frame id =
        { s.frame id with bindings := (s.frame id).bindings ++ [(name, value)] } := by
      rw [define, frame_update_self _ exists_, Table.put_of_notMem absent]
    have size : id < (s.define id name value).frames.size := by rwa [size_define]
    have later := @ih (s.define id name value) size (by
      rw [first]
      simpa [List.append_assoc] using distinct)
    rw [first] at later
    simp only [List.append_assoc, List.singleton_append] at later
    exact later

/-- The frame of a call: below the frame of the closure, with every parameter bound. -/
theorem frame_enter {s : Store} {l : Lambda} {args : List Node} (distinct : l.params.Distinct)
    (fits : l.params.Fits args) (place : Place) :
    (s.enter l place args).2.frame s.frames.size =
      { info := ⟨l.name, (s.frame l.frame).info.program, (s.frame l.frame).info.level + 1⟩
        parent := some l.frame
        bindings := l.params.bindings place args } := by
  have new := frame_push_self s l.frame l.name
  have size : s.frames.size < (s.push l.frame l.name).2.frames.size := by simp [push]
  have bound := @frame_defineAll (s.push l.frame l.name).2 s.frames.size
    (l.params.bindings place args) size (by
      rw [show s.frames.size = (s.push l.frame l.name).1 from rfl, new]
      exact distinct.nodup_bindings fits place)
  rw [show s.frames.size = (s.push l.frame l.name).1 from rfl, new] at bound
  exact bound

end Store

/-! ### Calls -/

namespace Interpreter

/-- Makes the frame of a call, if the arity accepts the arguments. -/
def openFrame (l : Lambda) (place : Place) (args : List Node) : Run FrameId := do
  Run.ofExcept place (l.params.arity.check l.name args.length)
  Run.updateStore (·.enter l place args)

/-- A call makes its frame and then evaluates the body there. -/
theorem enter_eq (eval : Evaluator) (l : Lambda) (body : Node) (args : List Node) (place : Place)
    (depth : Nat) :
    enter eval l body args place depth = (do
      let frame ← openFrame l place args
      match ← Run.catching Signal.isReturn (eval body frame (depth + 1)) with
      | .inl payload => return payload
      | .inr value => return value) := by
  unfold enter openFrame
  exact (bind_assoc _ _ _).symm

theorem openFrame_of_fits {l : Lambda} {args : List Node} (fits : l.params.Fits args)
    (place : Place) (w : World) :
    openFrame l place args w =
      .ok w.store.frames.size { w with store := (w.store.enter l place args).2 } := by
  have accepted := (Params.accepts_arity_iff l.params args).mpr fits
  rw [openFrame, Arity.check, if_pos accepted]
  rfl

theorem openFrame_of_not_fits {l : Lambda} {args : List Node} (fits : ¬ l.params.Fits args)
    (place : Place) (w : World) :
    openFrame l place args w =
      .error (.raised (.ofFault (.arity l.name l.params.arity args.length) place)) w := by
  have refused := mt (Params.accepts_arity_iff l.params args).mp fits
  rw [openFrame, Arity.check, if_neg refused]
  rfl

end Interpreter

/-- A parameter vector is read exactly if its items are symbols that spell distinct names,
perhaps with the marker in front of the last one, and it is written as what is read from it. A
closure with these parameters refuses arguments that they do not fit and leaves the world as it
is. Otherwise a call takes place in a new frame below that of the closure, in which each
parameter is bound to the argument at its position, the rest parameter to a vector of all
further arguments, and nothing else. -/
theorem Params.read_and_bound (callee : String) (node : Node) (params : Params) :
    (ofNode callee node = .ok params ↔
      ∃ place items, node = .vector place items ∧
        items.map Node.symbol? = params.words.map some ∧ params.Distinct) ∧
    (ofNode callee node = .ok params →
      params.print = node.print ∧
      ∀ (l : Lambda) (place : Place) (args : List Node) (w : World), l.params = params →
        let opened := Interpreter.openFrame l place args w
        ((∃ stop w', opened = .error stop w') ↔ ¬ params.Fits args) ∧
        (¬ params.Fits args →
          opened = .error (.raised (.ofFault (.arity l.name params.arity args.length) place)) w) ∧
        (params.Fits args →
          ∃ store, opened = .ok w.store.frames.size { w with store } ∧
            store.frames.size = w.store.frames.size + 1 ∧
            (∀ id < w.store.frames.size, store.frame id = w.store.frame id) ∧
            (store.frame w.store.frames.size).parent = some l.frame ∧
            ∀ name value,
              (store.frame w.store.frames.size).bindings.lookup name = some value ↔
                (∃ index : Nat, params.names[index]? = some name ∧ args[index]? = some value) ∨
                params.rest = some name ∧
                  value = .vector place (args.drop params.names.length)) ∧
        ∀ (eval : Evaluator) (body : Node) (depth : Nat),
          Interpreter.enter eval l body args place depth = (do
            let frame ← Interpreter.openFrame l place args
            match ← Run.catching Signal.isReturn (eval body frame (depth + 1)) with
            | .inl payload => return payload
            | .inr value => return value)) := by
  refine ⟨ofNode_eq_ok_iff, fun read => ?_⟩
  obtain ⟨vectorPlace, items, rfl, spelled, distinct⟩ := ofNode_eq_ok_iff.mp read
  refine ⟨print_of_spelled spelled, ?_⟩
  rintro l place args w rfl opened
  refine ⟨⟨?_, fun unfit => ?_⟩, ?_, fun fits => ?_, ?_⟩
  · rintro ⟨stop, w', failed⟩ fits
    rw [show opened = _ from Interpreter.openFrame_of_fits fits place w] at failed
    cases failed
  · exact ⟨_, _, Interpreter.openFrame_of_not_fits unfit place w⟩
  · exact fun unfit => Interpreter.openFrame_of_not_fits unfit place w
  · obtain ⟨_, _, old⟩ := Store.makesFrame_enter l place args w.store
    have frame := Store.frame_enter (s := w.store) distinct fits place
    refine ⟨_, Interpreter.openFrame_of_fits fits place w, ?_, old, ?_, fun name value => ?_⟩
    · exact (Store.size_defineAll _ _ _).trans (Array.size_push _)
    · rw [frame]
    · rw [frame, Table.lookup_eq_some_iff (distinct.nodup_bindings fits place), mem_bindings_iff]
  · exact fun eval body depth => Interpreter.enter_eq eval l body args place depth

/-- `((fn [a & more] ..) 1 2 3)` binds `more` to `[2 3]`. -/
theorem Params.rest_bound :
    let params : Params := ⟨["a"], some "more"⟩
    let vector : Node :=
      .vector .computed [.symbol .computed "a", .symbol .computed "&", .symbol .computed "more"]
    let l : Lambda := ⟨0, .function, anonymous, params, Store.root⟩
    let number (n : Int64) : Node := .number .computed (.int n)
    ofNode "fn" vector = .ok params ∧
      ∃ store : Store,
        Interpreter.openFrame l .computed [number 1, number 2, number 3] ⟨.empty 1, 0, ""⟩ =
          .ok 1 ⟨store, 0, ""⟩ ∧
        (store.frame 1).bindings.lookup "more" =
          some (.vector .computed [number 2, number 3]) := by
  intro params vector l number
  have read : ofNode "fn" vector = .ok params := rfl
  obtain ⟨_, calls⟩ := (read_and_bound "fn" vector params).2 read
  have fits : params.Fits [number 1, number 2, number 3] := by decide
  obtain ⟨_, _, opens, _⟩ := calls l .computed [number 1, number 2, number 3] ⟨.empty 1, 0, ""⟩ rfl
  obtain ⟨store, opened, _, _, _, bound⟩ := opens fits
  exact ⟨read, store, opened, (bound _ _).mpr (.inr ⟨rfl, rfl⟩)⟩

end Sexpr
