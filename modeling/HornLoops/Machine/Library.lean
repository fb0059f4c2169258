/-!
# The library

Predicates that every machine knows from the start. Three of them are loops themselves.
-/

namespace HornLoops

/-- The text of the library. -/
def libraryText : String := "
member(X, [X|_]).
member(X, [_|T]) :- member(X, T).

append([], L, L).
append([H|T], L, [H|R]) :- append(T, L, R).

between(L, H, L) :- L =< H.
between(L, H, X) :- L < H, L1 is L + 1, between(L1, H, X).

sum_list(Xs, Sum) :-
    ( foreach(X, Xs), fromto(0, S0, S1, Sum) do S1 is S0 + X ).

numlist(L, H, Ns) :-
    ( for(I, L, H), foreach(I, Ns) do true ).

reverse(Xs, Ys) :-
    ( foreach(X, Xs), fromto([], T, [X|T], Ys) do true ).
"

end HornLoops
